import SafeKiddo.Httpd
import Mathlib.Data.List.DropRight

/-!
# The forwarded address

The address that httpd charges a request to. A proxy appends the address of its peer to the header
`X-Forwarded-For`, so only the last element of the header comes from a trusted hop.

Results:
1. `getLastIp_cut`: the position arithmetic of `getLastIp` cuts the last element out and trims it.
2. `getClientIp_eq`: the client address is that of the last element, or that of the peer.
3. `charged_to_last_hop`: the elements before the last one do not count.
-/

namespace SafeKiddo

open ByteString

/-! ## 1. The last element -/

/-- What follows the last comma. -/
def lastElement (forwardedFor : Bytes) : Bytes := forwardedFor.rtakeWhile (· ≠ chr ',')

/-- The text without the spaces around it. -/
def trimSpaces (s : Bytes) : Bytes := (s.dropWhile (· = chr ' ')).rdropWhile (· = chr ' ')

namespace ForwardedForLemmas

variable {q t a m b : Bytes}

theorem lastElement_append (ht : chr ',' ∉ t) (p : Bytes) :
    lastElement (p ++ chr ',' :: t) = t := by
  rw [lastElement, List.rtakeWhile, List.reverse_append, List.reverse_cons, List.append_assoc,
    List.takeWhile_append_of_pos fun c hc => keep_of_notMem ht c (List.mem_reverse.mp hc)]
  simp

theorem lastElement_self (ht : chr ',' ∉ t) : lastElement t = t :=
  List.rtakeWhile_eq_self_iff.mpr (keep_of_notMem ht)

/-- A text with more than spaces is spaces, the trimmed text, and spaces. -/
theorem exists_trim (h : ¬ ∀ c ∈ t, c = chr ' ') :
    ∃ a b, t = a ++ (trimSpaces t ++ b) ∧ (∀ c ∈ a, c = chr ' ') ∧ (∀ c ∈ b, c = chr ' ') ∧
      ∃ c m d, trimSpaces t = c :: m ∧ c ≠ chr ' ' ∧ (trimSpaces t).getLast? = some d ∧
        d ≠ chr ' ' := by
  have hcut : t.dropWhile (· = chr ' ') ≠ [] := by
    rw [Ne, List.dropWhile_eq_nil_iff]
    simpa using h
  have hhead : ∀ c ∈ (t.dropWhile (· = chr ' ')).head?, c ≠ chr ' ' := by
    intro c hc
    have hnot := List.head?_dropWhile_not (· = chr ' ') t
    rw [hc] at hnot
    simpa using hnot
  have hne : trimSpaces t ≠ [] := by
    rw [Ne, trimSpaces, List.rdropWhile_eq_nil_iff]
    intro hall
    obtain ⟨c, m, hcm⟩ := List.exists_cons_of_ne_nil hcut
    exact hhead c (by rw [hcm]; rfl) (by simpa using hall c (by rw [hcm]; simp))
  refine ⟨t.takeWhile (· = chr ' '), (t.dropWhile (· = chr ' ')).rtakeWhile (· = chr ' '), ?_, ?_,
    ?_, ?_⟩
  · rw [trimSpaces, List.rdropWhile_append_rtakeWhile, List.takeWhile_append_dropWhile]
  · intro c hc
    simpa using List.mem_takeWhile_imp hc
  · intro c hc
    simpa using List.mem_rtakeWhile_imp hc
  · obtain ⟨c, m, hcm⟩ := List.exists_cons_of_ne_nil hne
    refine ⟨c, m, (trimSpaces t).getLast hne, hcm, ?_, List.getLast?_eq_some_getLast hne, ?_⟩
    · -- Trimming at the end keeps the beginning.
      have hpre : trimSpaces t <+: t.dropWhile (· = chr ' ') := List.rdropWhile_prefix _ _
      obtain ⟨rest, hrest⟩ := hpre
      refine hhead c ?_
      rw [← hrest, hcm]
      rfl
    · have hlast := List.rdropWhile_last_not (· = chr ' ') _ hne
      simpa [trimSpaces] using hlast

/-- The three searches of `getLastIp`, one after the other. -/
theorem getLastIp_elim (forwardedFor : Bytes) : getLastIp forwardedFor =
    (findFirstNotOf forwardedFor (chr ' ')
      ((rfind forwardedFor (chr ',')).elim 0 (· + 1))).elim (bytes "(invalid)") fun start =>
        (findLastNotOf forwardedFor (chr ' ')).elim (bytes "(invalid)") fun last =>
          substr forwardedFor start (some (last + 1 - start)) := by
  unfold getLastIp
  generalize findLastNotOf forwardedFor (chr ' ') = last
  cases rfind forwardedFor (chr ',') with
  | none =>
    dsimp only [Option.elim_none]
    cases findFirstNotOf forwardedFor (chr ' ') 0 <;> cases last <;> rfl
  | some pos =>
    dsimp only [Option.elim_some]
    cases findFirstNotOf forwardedFor (chr ' ') (pos + 1) <;> cases last <;> rfl

/-- What is cut out of a text whose last element is `t`. -/
theorem getLastIp_cut (hpos : (rfind (q ++ t) (chr ',')).elim 0 (· + 1) = q.length) :
    getLastIp (q ++ t) = if ∀ c ∈ t, c = chr ' ' then bytes "(invalid)" else trimSpaces t := by
  rw [getLastIp_elim, hpos]
  by_cases hall : ∀ c ∈ t, c = chr ' '
  · rw [if_pos hall, findFirstNotOf_eq_none q hall]
    rfl
  · rw [if_neg hall]
    obtain ⟨a, b, hab, ha, hb, c, m, d, hcm, hc, hd, hdne⟩ := exists_trim hall
    obtain ⟨init, hinit⟩ : ∃ init, trimSpaces t = init ++ [d] := List.getLast?_eq_some_iff.mp hd
    have hfirst : findFirstNotOf (q ++ t) (chr ' ') q.length = some (q.length + a.length) := by
      rw [hab, hcm]
      exact findFirstNotOf_append q ha hc (m ++ b)
    have hlast : findLastNotOf (q ++ t) (chr ' ') =
        some (q.length + a.length + init.length) := by
      have hsplit : q ++ t = (q ++ a ++ init) ++ d :: b := by
        rw [hab, hinit]
        simp
      rw [hsplit, findLastNotOf_append hdne hb, List.length_append, List.length_append]
    have hlength : q.length + a.length + init.length + 1 - (q.length + a.length) =
        (trimSpaces t).length := by
      rw [hinit, List.length_append, List.length_singleton]
      omega
    have hsplit : q ++ t = (q ++ a) ++ (trimSpaces t ++ b) := by
      rw [List.append_assoc, ← hab]
    rw [hfirst, hlast, Option.elim_some, Option.elim_some, hlength, hsplit, ← List.length_append]
    exact (substr_append_length (q ++ a) (trimSpaces t ++ b) 0 _).trans
      (substr_front (trimSpaces t) b)

end ForwardedForLemmas

open ForwardedForLemmas

/-- The last element decides. -/
theorem getLastIp_eq (forwardedFor : Bytes) :
    getLastIp forwardedFor =
      if ∀ c ∈ lastElement forwardedFor, c = chr ' ' then bytes "(invalid)"
      else trimSpaces (lastElement forwardedFor) := by
  by_cases hcomma : chr ',' ∈ forwardedFor
  · obtain ⟨p, t, rfl, ht⟩ := exists_last hcomma
    rw [lastElement_append ht, List.append_cons]
    refine getLastIp_cut ?_
    rw [← List.append_cons, rfind_append ht, List.length_append, List.length_singleton]
    rfl
  · rw [lastElement_self hcomma]
    have hfind : rfind forwardedFor (chr ',') = none := by
      simpa [rfind, List.findIdx?_eq_none_iff, keep_of_notMem] using keep_of_notMem hcomma
    have hcut := @getLastIp_cut [] forwardedFor
    rw [List.nil_append, hfind] at hcut
    exact hcut rfl

/-! ## 2. The client address -/

/-- The address that the last element names, or else that of the peer. -/
def hopAddress (inetPton : InetPton) (sinAddr : UInt32) (t : Bytes) : In6Addr :=
  if ∀ c ∈ t, c = chr ' ' then AdmissionControlContainer.inAddrV4ToV6 sinAddr
  else (AdmissionControlContainer.stringToIp inetPton (trimSpaces t)).getD
    (AdmissionControlContainer.inAddrV4ToV6 sinAddr)

/-- The text for a missing address is no address. -/
theorem stringToIp_invalid {inetPton : InetPton} (hinet : inetPton.Documented) :
    AdmissionControlContainer.stringToIp inetPton (bytes "(invalid)") = none := by
  cases h : AdmissionControlContainer.stringToIp inetPton (bytes "(invalid)") with
  | none => rfl
  | some ip => exact absurd (mem_address hinet h (List.mem_cons_self)) (by decide)

section Client

variable {params : HttpdParams} {connection : Connection} {forwardedFor : Bytes}

theorem getClientIp_eq (huse : params.useForwardedFor = true) (hinet : params.inetPton.Documented)
    (h : connection.header (bytes "X-Forwarded-For") = some forwardedFor) :
    getClientIp params connection =
      hopAddress params.inetPton connection.sinAddr (lastElement forwardedFor) := by
  rw [getClientIp, if_pos huse, h]
  simp only [getLastIp_eq]
  unfold hopAddress
  split
  · rw [stringToIp_invalid hinet]
    rfl
  · rfl

/-- The request is counted for this address, with or without a penalty, and nothing else changes. -/
def ChargedTo (ip : In6Addr) (container container' : AdmissionControlContainer) : Prop :=
  container' = (container.getAccess ip).2 ∨
    container' = (container.getAccess ip).2.addInvalidCredentialsPenalty ip

theorem chargedTo_client (params : HttpdParams) {url method : Bytes} {rq : Request}
    (h : categorizationRequest connection url method = some rq) (backend : Request → Reply)
    (container : AdmissionControlContainer) :
    ChargedTo (getClientIp params connection) container
      (processRequestAndReturnHttpStatus params connection url method backend container).2 := by
  rw [processRequest_of_request params h backend container]
  split
  · exact .inl rfl
  · rw [handleResult_container]
    split
    · exact .inr rfl
    · exact .inl rfl

end Client

/-! ## 3. Forged elements -/

/-- What `getLastIp` cuts out names the address, or else the peer does. -/
theorem hopAddress_eq {inetPton : InetPton} (hinet : inetPton.Documented) {t : Bytes}
    (ht : chr ',' ∉ t) (sinAddr : UInt32) :
    hopAddress inetPton sinAddr t =
      (AdmissionControlContainer.stringToIp inetPton (getLastIp t)).getD
        (AdmissionControlContainer.inAddrV4ToV6 sinAddr) := by
  rw [getLastIp_eq, lastElement_self ht, hopAddress]
  split
  · rw [stringToIp_invalid hinet]
    rfl
  · rfl

/-- Whatever stands in front of the last comma, the last element is cut out and trimmed. All requests
of a peer with one last element are charged to one address: the one that the element names, or that
of the peer. -/
theorem charged_to_last_hop {params : HttpdParams} (huse : params.useForwardedFor = true)
    (hinet : params.inetPton.Documented) {t : Bytes} (ht : chr ',' ∉ t) :
    (∀ p, getLastIp (p ++ chr ',' :: t) = getLastIp t) ∧
    getLastIp t = (if ∀ c ∈ t, c = chr ' ' then bytes "(invalid)" else trimSpaces t) ∧
    ∀ sinAddr,
      (∀ ip, AdmissionControlContainer.stringToIp params.inetPton (getLastIp t) = some ip →
        hopAddress params.inetPton sinAddr t = ip) ∧
      (AdmissionControlContainer.stringToIp params.inetPton (getLastIp t) = none →
        hopAddress params.inetPton sinAddr t =
          AdmissionControlContainer.inAddrV4ToV6 sinAddr) ∧
      ∀ connection forwardedFor, connection.sinAddr = sinAddr →
        connection.header (bytes "X-Forwarded-For") = some forwardedFor →
        lastElement forwardedFor = t →
        getClientIp params connection = hopAddress params.inetPton sinAddr t ∧
        ∀ url method rq backend container, categorizationRequest connection url method = some rq →
          ChargedTo (hopAddress params.inetPton sinAddr t) container
            (processRequestAndReturnHttpStatus params connection url method backend container).2 := by
  refine ⟨?_, ?_, fun sinAddr => ⟨?_, ?_, ?_⟩⟩
  · intro p
    rw [getLastIp_eq, getLastIp_eq, lastElement_append ht, lastElement_self ht]
  · rw [getLastIp_eq, lastElement_self ht]
  · intro ip hip
    rw [hopAddress_eq hinet ht, hip]
    rfl
  · intro hnone
    rw [hopAddress_eq hinet ht, hnone]
    rfl
  · rintro connection forwardedFor rfl hheader rfl
    have hip := getClientIp_eq huse hinet hheader
    refine ⟨hip, ?_⟩
    intro url method rq backend container hrq
    rw [← hip]
    exact chargedTo_client params hrq backend container

/-- One address that `inet_pton` takes. -/
def tenPton : InetPton where
  inet text := if text = bytes "10.0.0.1" then some 0x0100000a else none
  inet6 _ := none

theorem tenPton_documented : tenPton.Documented where
  inet text h := by
    have htext : text = bytes "10.0.0.1" := by
      by_contra hne
      simp [tenPton, hne] at h
    subst htext
    decide +kernel
  inet6 text h := nomatch h

/-- A request that has come through a proxy, with forged elements in front. -/
def forged (elements : Bytes) : Connection where
  header name :=
    if name = bytes "X-Forwarded-For" then some (elements ++ chr ',' :: bytes " 10.0.0.1 ")
    else none
  sinAddr := 0x0200000a

theorem charged_to_last_hop_ten :
    (∀ p, getLastIp (p ++ chr ',' :: bytes " 10.0.0.1 ") = getLastIp (bytes " 10.0.0.1 ")) ∧
    getLastIp (bytes " 10.0.0.1 ") = bytes "10.0.0.1" ∧
    ∀ p, getClientIp ⟨tenPton, true, true⟩ (forged p) =
      AdmissionControlContainer.inAddrV4ToV6 0x0100000a := by
  have ht : chr ',' ∉ bytes " 10.0.0.1 " := by decide +kernel
  obtain ⟨hforged, htrim, hcharged⟩ :=
    @charged_to_last_hop ⟨tenPton, true, true⟩ rfl tenPton_documented _ ht
  obtain ⟨hip, -, hclient⟩ := hcharged 0x0200000a
  refine ⟨hforged, htrim.trans (by decide +kernel), ?_⟩
  intro p
  have hheader : (forged p).header (bytes "X-Forwarded-For") =
      some (p ++ chr ',' :: bytes " 10.0.0.1 ") := by simp [forged]
  rw [(hclient (forged p) _ rfl hheader (lastElement_append ht p)).1]
  exact hip _ (by decide +kernel)

end SafeKiddo
