import SafeKiddo.UrlPattern

/-!
# The positions of a pattern match

Positions are unsigned, so a difference below zero would be a position far outside the url. Here the
matching functions compute each difference under a check, and read only at positions of the url. The
guards of the source keep every one of them in range.

Results:
1. `matchesUrlChecked_eq`: with checked differences the functions compute what they compute without.
2. `createFromIds_matches`: which urls the pattern of an address matches.
-/

namespace SafeKiddo

open ByteString

/-! ## 1. The code with checked differences -/

/-- A difference of positions, which is out of range below zero. -/
def checkedSub (a b : Nat) : Checked Nat := if b ≤ a then some (a - b) else none

namespace UrlPattern

/-- `hostNameMatches`. Each difference is computed where the source computes it. -/
def hostNameMatchesChecked (p : UrlPattern) (requestUrl : Bytes) (subDomainAllowed : Bool) :
    Checked Bool := do
  let slashPos ← find requestUrl '/' 0
  if slashPos < p.hostName.length then
    some false
  else if ← compareAt requestUrl (← checkedSub slashPos p.hostName.length) p.hostName.length
      p.hostName then
    if slashPos = p.hostName.length then
      some true
    else if subDomainAllowed then
      requestUrl[← checkedSub (← checkedSub slashPos p.hostName.length) 1]?.map (· = chr '.')
    else
      some false
  else
    some false

def pathMatchesChecked (p : UrlPattern) (requestUrl : Bytes) : Checked Bool := do
  let slashPos ← find requestUrl '/' 0
  if (← checkedSub requestUrl.length slashPos) < p.path.length then
    some false
  else
    compareAt requestUrl slashPos p.path.length p.path

def matchesUrlChecked (p : UrlPattern) (requestUrl : Bytes) : Checked Bool :=
  match p.kind with
  | .matchAllSubdomains => p.hostNameMatchesChecked requestUrl true
  | .matchDomainWithPath => do
    if ← p.hostNameMatchesChecked requestUrl false then p.pathMatchesChecked requestUrl
    else some false

/-! ## 2. No difference is out of range -/

theorem checkedSub_eq {a b : Nat} (h : b ≤ a) : checkedSub a b = some (a - b) := if_pos h

theorem hostNameMatchesChecked_eq (p : UrlPattern) (requestUrl : Bytes) (sub : Bool) :
    p.hostNameMatchesChecked requestUrl sub = p.hostNameMatches requestUrl sub := by
  unfold hostNameMatchesChecked hostNameMatches
  cases hfind : find requestUrl '/' 0 with
  | none => rfl
  | some slashPos =>
    simp only [Option.bind_eq_bind, Option.bind_some]
    split
    · rfl
    · next hlen =>
      have hle : p.hostName.length ≤ slashPos := Nat.le_of_not_lt hlen
      rw [checkedSub_eq hle, Option.bind_some]
      rcases compareAt requestUrl (slashPos - p.hostName.length) p.hostName.length p.hostName
        with _ | _ | _
      · rfl
      · rfl
      · simp only [Option.bind_some, if_true]
        split
        · rfl
        · next hne =>
          -- The host is longer than the pattern here, so there is a byte in front of it.
          have hpos : 1 ≤ slashPos - p.hostName.length :=
            Nat.sub_pos_of_lt (lt_of_le_of_ne hle (Ne.symm hne))
          rw [checkedSub_eq hpos, Option.bind_some]

theorem pathMatchesChecked_eq (p : UrlPattern) (requestUrl : Bytes) :
    p.pathMatchesChecked requestUrl = p.pathMatches requestUrl := by
  unfold pathMatchesChecked pathMatches
  cases hfind : find requestUrl '/' 0 with
  | none => rfl
  | some slashPos =>
    simp only [Option.bind_eq_bind, Option.bind_some]
    rw [checkedSub_eq (find_lt hfind).2.le, Option.bind_some]

theorem matchesUrlChecked_eq (p : UrlPattern) (requestUrl : Bytes) :
    p.matchesUrlChecked requestUrl = p.matchesUrl requestUrl := by
  unfold matchesUrlChecked matchesUrl
  cases p.kind with
  | matchAllSubdomains => exact hostNameMatchesChecked_eq p requestUrl true
  | matchDomainWithPath =>
    simp only [hostNameMatchesChecked_eq, pathMatchesChecked_eq]

/-! ## 3. The language of patterns -/

open UrlPatternLemmas

/-- An address with a path is its host and its path in one way only. -/
theorem matches_iff (a : UrlPatternId) (u : Bytes) :
    Matches a u ↔
      (chr '/' ∉ a ∧ (hostPart u = a ∨ chr '.' :: a <:+ hostPart u)) ∨
      ∃ g p, a = g ++ p ∧ chr '/' ∉ g ∧ p.head? = some (chr '/') ∧ hostPart u = g ∧
        p <+: pathPart u := by
  unfold Matches
  by_cases ha : chr '/' ∈ a
  · rw [if_pos ha]
    constructor
    · rintro ⟨hhost, hpath⟩
      obtain ⟨g, t, rfl, hg⟩ := exists_slash ha
      rw [hostPart_cons hg] at hhost
      rw [pathPart_cons hg] at hpath
      exact .inr ⟨g, chr '/' :: t, rfl, hg, rfl, hhost.symm, hpath⟩
    · rintro (⟨hno, -⟩ | ⟨g, p, rfl, hg, hp, hhost, hpath⟩)
      · exact absurd ha hno
      · cases p with
        | nil => cases hp
        | cons c t =>
          cases hp
          rw [hostPart_cons hg, pathPart_cons hg]
          exact ⟨hhost.symm, hpath⟩
  · rw [if_neg ha]
    constructor
    · intro h
      exact .inl ⟨ha, h⟩
    · rintro (⟨-, h⟩ | ⟨g, p, rfl, -, hp, -⟩)
      · exact h
      · exact absurd (List.mem_append_right g (List.mem_of_head? hp)) ha

/-- An address without a path matches its host and the subdomains of it, an address with a path the
urls of its host that begin with the path. No position is out of range on the way. -/
theorem createFromIds_matches (ids : List UrlPatternId) {u : Bytes} (hu : chr '/' ∈ u) :
    ∃ patterns, createFromIds ids = some patterns ∧
      List.Forall₂ (fun a pattern => ∃ answer, pattern.matchesUrl u = some answer ∧
        pattern.matchesUrlChecked u = some answer ∧
        (answer = true ↔
          (chr '/' ∉ a ∧ (hostPart u = a ∨ chr '.' :: a <:+ hostPart u)) ∨
          ∃ g p, a = g ++ p ∧ chr '/' ∉ g ∧ p.head? = some (chr '/') ∧ hostPart u = g ∧
            p <+: pathPart u)) ids patterns := by
  refine ⟨ids.map ofId, createFromIds_eq ids, ?_⟩
  rw [List.forall₂_map_right_iff, List.forall₂_same]
  intro a _
  refine ⟨decide (Matches a u), matchesUrl_ofId a hu, ?_, ?_⟩
  · rw [matchesUrlChecked_eq, matchesUrl_ofId a hu]
  · rw [decide_eq_true_iff, matches_iff]

theorem createFromIds_matches_onet :
    ∃ patterns, createFromIds [bytes "onet.pl", bytes "wp.pl/sport", []] = some patterns ∧
      List.Forall₂ (fun a pattern => ∃ answer,
        pattern.matchesUrl (bytes "www.onet.pl/") = some answer ∧
        pattern.matchesUrlChecked (bytes "www.onet.pl/") = some answer ∧
        (answer = true ↔
          (chr '/' ∉ a ∧ (hostPart (bytes "www.onet.pl/") = a ∨
            chr '.' :: a <:+ hostPart (bytes "www.onet.pl/"))) ∨
          ∃ g p, a = g ++ p ∧ chr '/' ∉ g ∧ p.head? = some (chr '/') ∧
            hostPart (bytes "www.onet.pl/") = g ∧ p <+: pathPart (bytes "www.onet.pl/")))
        [bytes "onet.pl", bytes "wp.pl/sport", []] patterns :=
  createFromIds_matches _ (by decide)

end UrlPattern

end SafeKiddo
