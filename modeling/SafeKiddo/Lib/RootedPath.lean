import SafeKiddo.Lib.ByteString

/-!
# Rooted paths with dot segments

A path that begins with a slash, read character by character: the segments closed so far are on a
stack and the last one is open. An empty segment and a single dot are dropped, and two dots drop the
segment before them.

Results:
1. `PathState.current_cases`: the four kinds of an open segment, with what closing each of them
   does.
2. `length_step_le`, `length_finish_le`: a character adds at most one byte.
3. `finish_foldl_root`: reading character by character is cutting at the slashes and resolving the
   segments one by one.
4. `finish_foldl_renderSegments`: a path of kept segments is read back as it is.
5. `prefix_finish_foldl`: a path begins what it becomes, as long as no two dots behind it step back
   into it.
-/

namespace ByteString

/-! ## 1. Paths -/

/-- A path under normalization: the kept segments, the last one first, and the open segment. -/
structure PathState where
  stack : List Bytes
  current : Bytes
  clean : ∀ seg ∈ current :: stack, chr '/' ∉ seg

namespace PathState

/-- The root slash. -/
def root : PathState := ⟨[], [], by simp⟩

def renderStack : List Bytes → Bytes
  | [] => []
  | seg :: below => renderStack below ++ chr '/' :: seg

def render (p : PathState) : Bytes := renderStack p.stack ++ chr '/' :: p.current

/-- The segments left by closing the open one: an empty segment and a dot are dropped, two dots
take the parent with them. -/
def closed (p : PathState) : List Bytes :=
  if p.current = [] ∨ p.current = bytes "." then p.stack
  else if p.current = bytes ".." then p.stack.tail
  else p.current :: p.stack

theorem clean_closed (p : PathState) : ∀ seg ∈ p.closed, chr '/' ∉ seg := by
  intro seg hseg
  unfold closed at hseg
  split at hseg
  · exact p.clean seg (List.mem_cons_of_mem _ hseg)
  · split at hseg
    · exact p.clean seg (List.mem_cons_of_mem _ (List.mem_of_mem_tail hseg))
    · exact p.clean seg hseg

/-- One more character of the path. -/
def step (p : PathState) (ch : Byte) : PathState :=
  if hch : ch = chr '/' then
    ⟨p.closed, [], by simpa using p.clean_closed⟩
  else
    ⟨p.stack, p.current ++ [ch], by
      intro seg hseg
      rcases List.mem_cons.mp hseg with rfl | hseg
      · simpa [Ne.symm hch] using p.clean p.current List.mem_cons_self
      · exact p.clean seg (List.mem_cons_of_mem _ hseg)⟩

/-- The path at its end. Trailing dots go with their slash, but the root slash stays. -/
def finish (p : PathState) : Bytes :=
  if p.current = bytes "." ∨ p.current = bytes ".." then
    if p.closed = [] then [chr '/'] else renderStack p.closed
  else
    p.render

/-- The value of `slash_dot_dot`: the length of a trailing slash with at most two dots. -/
def marker (p : PathState) : Nat :=
  if p.current = [] then 1
  else if p.current = bytes "." then 2
  else if p.current = bytes ".." then 3
  else 0

/-! ## 2. Open segments -/

/-- The four kinds of an open segment. -/
theorem current_cases (p : PathState) :
    (p.current = [] ∧ p.marker = 1 ∧ p.closed = p.stack ∧ p.finish = p.render) ∨
    (p.current = bytes "." ∧ p.marker = 2 ∧ p.closed = p.stack) ∨
    (p.current = bytes ".." ∧ p.marker = 3 ∧ p.closed = p.stack.tail) ∨
    (p.marker = 0 ∧ p.closed = p.current :: p.stack ∧ p.finish = p.render ∧
      p.current ≠ [] ∧ p.current ≠ bytes "." ∧ p.current ≠ bytes "..") := by
  have h1 : ([] : Bytes) ≠ bytes "." := by decide
  have h2 : ([] : Bytes) ≠ bytes ".." := by decide
  have h3 : bytes ".." ≠ bytes "." := by decide
  by_cases he : p.current = []
  · exact .inl ⟨he, by simp [marker, he], by simp [closed, he],
      by simp [finish, he, h1, h2]⟩
  by_cases hd : p.current = bytes "."
  · exact .inr (.inl ⟨hd, by simp [marker, hd, h1.symm], by simp [closed, hd]⟩)
  by_cases hdd : p.current = bytes ".."
  · exact .inr (.inr (.inl ⟨hdd, by simp [marker, hdd, h2.symm, h3],
      by simp [closed, hdd, h2.symm, h3]⟩))
  · exact .inr (.inr (.inr ⟨by simp [marker, he, hd, hdd],
      by simp [closed, he, hd, hdd], by simp [finish, hd, hdd], he, hd, hdd⟩))

/-- What follows the segments begins the path when there are none. -/
theorem head?_renderStack_append (stack : List Bytes) (t : Bytes) :
    (renderStack stack ++ chr '/' :: t).head? = some (chr '/') := by
  induction stack generalizing t with
  | nil => rfl
  | cons seg below ih =>
    rw [renderStack, List.append_assoc]
    exact ih (seg ++ chr '/' :: t)

/-! ## 3. Growth -/

/-- Closing segments makes no path longer. -/
theorem length_closed_le (p : PathState) :
    (renderStack p.closed).length ≤ p.render.length := by
  rcases current_cases p with ⟨-, -, hcl, -⟩ | ⟨-, -, hcl⟩ | ⟨-, -, hcl⟩ | ⟨-, hcl, -⟩
  · rw [hcl, render, List.length_append]
    exact Nat.le_add_right _ _
  · rw [hcl, render, List.length_append]
    exact Nat.le_add_right _ _
  · rw [hcl, render]
    cases p.stack with
    | nil => exact Nat.zero_le _
    | cons seg below =>
      simp only [renderStack, List.tail_cons, List.length_append]
      omega
  · rw [hcl]
    exact le_rfl

theorem length_step_le (p : PathState) (ch : Byte) :
    (p.step ch).render.length ≤ p.render.length + 1 := by
  unfold step
  split
  · simpa [render] using length_closed_le p
  · simp only [render, List.length_append, List.length_cons, List.length_nil]
    omega

theorem length_finish_le (p : PathState) : p.finish.length ≤ p.render.length := by
  unfold finish
  split
  · split
    · simp only [render, List.length_append, List.length_cons, List.length_nil]
      omega
    · exact length_closed_le p
  · exact le_rfl

/-- The marker counts a dot after a slash or after a slash and a dot. -/
theorem marker_dot (p : PathState) :
    (p.step (chr '.')).marker = if p.marker = 1 ∨ p.marker = 2 then p.marker + 1 else 0 := by
  have hstep : (p.step (chr '.')).current = p.current ++ [chr '.'] := rfl
  rcases current_cases p with ⟨hc, hk, -⟩ | ⟨hc, hk, -⟩ | ⟨hc, hk, -⟩ | ⟨hk, -, -, h1, h2, -⟩
  · rw [hk, marker, hstep, hc]
    rfl
  · rw [hk, marker, hstep, hc]
    rfl
  · rw [hk, marker, hstep, hc]
    rfl
  · have hd : p.current ++ [chr '.'] ≠ bytes "." := by
      intro he
      exact h1 (List.append_cancel_right (he.trans (List.nil_append _).symm))
    have hdd : p.current ++ [chr '.'] ≠ bytes ".." := by
      intro he
      exact h2 (@List.append_cancel_right _ _ (bytes ".") _ he)
    rw [hk, if_neg (by decide)]
    simp [marker, hstep, hd, hdd]

theorem marker_le (p : PathState) : p.marker ≤ 3 := by
  rcases current_cases p with ⟨-, hk, -⟩ | ⟨-, hk, -⟩ | ⟨-, hk, -⟩ | ⟨hk, -⟩ <;> rw [hk] <;> decide

theorem marker_other (p : PathState) {ch : Byte} (hs : ch ≠ chr '/') (hd : ch ≠ chr '.') :
    (p.step ch).marker = 0 := by
  have hlast : ∀ s : Bytes, s.getLast? = some (chr '.') → p.current ++ [ch] ≠ s := by
    rintro s hs rfl
    simp at hs
    exact hd hs
  have h1 := hlast (bytes ".") rfl
  have h2 := hlast (bytes "..") rfl
  simp [step, hs, marker, h1, h2]

/-! ## 4. Whole segments -/

/-- A whole segment on a stack whose last element is the top. -/
def pushSegment (stack : List Bytes) (seg : Bytes) : List Bytes :=
  if seg = [] ∨ seg = bytes "." then stack
  else if seg = bytes ".." then stack.dropLast
  else stack ++ [seg]

/-- What the segments leave on the stack. -/
def resolve (segments : List Bytes) : List Bytes := segments.foldl pushSegment []

/-- The path of a stack; a slash at the end stays behind a segment. -/
def renderSegments (stack : List Bytes) (trailing : Bool) : Bytes :=
  chr '/' :: [chr '/'].intercalate stack ++
    if trailing ∧ stack ≠ [] then [chr '/'] else []

theorem closed_eq_pushSegment (p : PathState) :
    p.closed.reverse = pushSegment p.stack.reverse p.current := by
  unfold closed pushSegment
  split
  · rfl
  · split
    · exact List.dropLast_reverse.symm
    · exact List.reverse_cons

/-- The open segment goes on with the first segment of the text. -/
theorem foldl_step_segments (chars : Bytes) (p : PathState) {head : Bytes} {rest : List Bytes}
    (h : chars.splitOn (chr '/') = head :: rest) :
    (chars.foldl step p).closed.reverse =
      ((p.current ++ head) :: rest).foldl pushSegment p.stack.reverse ∧
    ((p.current ++ head) :: rest).getLast? = some (chars.foldl step p).current := by
  induction chars generalizing p head rest with
  | nil =>
    obtain ⟨rfl, rfl⟩ := List.cons.inj ((List.splitOn_nil _).symm.trans h)
    rw [List.append_nil]
    exact ⟨closed_eq_pushSegment p, rfl⟩
  | cons c chars ih =>
    obtain ⟨next, more, hchars⟩ := List.exists_cons_of_ne_nil (List.splitOn_ne_nil (chr '/') chars)
    have hstep := ih (p.step c) hchars
    rw [List.splitOn_cons_eq_if_modifyHead, hchars] at h
    rw [List.foldl_cons]
    split at h
    · next hc =>
      -- A slash closes the open segment.
      obtain ⟨rfl, rfl⟩ := List.cons.inj h
      have hstack : (p.step c).stack = p.closed := by rw [step, dif_pos (eq_of_beq hc)]
      have hcurrent : (p.step c).current = [] := by rw [step, dif_pos (eq_of_beq hc)]
      rw [hcurrent, hstack, closed_eq_pushSegment p] at hstep
      rw [List.append_nil]
      exact ⟨hstep.1, hstep.2⟩
    · next hc =>
      obtain ⟨rfl, rfl⟩ := List.cons.inj h
      have hne : c ≠ chr '/' := fun he => hc (beq_iff_eq.mpr he)
      have hstack : (p.step c).stack = p.stack := by rw [step, dif_neg hne]
      have hcurrent : (p.step c).current = p.current ++ [c] := by rw [step, dif_neg hne]
      rw [hcurrent, hstack, List.append_assoc] at hstep
      exact hstep

theorem renderStack_reverse (stack : List Bytes) :
    renderStack stack.reverse = (stack.map (chr '/' :: ·)).flatten := by
  induction stack using List.reverseRecOn with
  | nil => rfl
  | append_singleton stack seg ih =>
    rw [List.reverse_append, List.reverse_singleton, List.singleton_append, renderStack, ih]
    simp

theorem cons_intercalate {stack : List Bytes} (h : stack ≠ []) :
    chr '/' :: [chr '/'].intercalate stack = (stack.map (chr '/' :: ·)).flatten := by
  induction stack with
  | nil => exact absurd rfl h
  | cons seg stack ih =>
    cases stack with
    | nil => simp
    | cons next stack =>
      rw [List.intercalate_cons_cons, List.map_cons, List.flatten_cons,
        ← ih (List.cons_ne_nil _ _)]
      simp

theorem renderSegments_false (stack : List Bytes) :
    renderSegments stack false = chr '/' :: [chr '/'].intercalate stack := by
  rw [renderSegments, if_neg fun h => Bool.false_ne_true h.1, List.append_nil]

/-- The end of a path in terms of its stack after the last segment. -/
theorem finish_eq_renderSegments (p : PathState) :
    p.finish = renderSegments p.closed.reverse (decide (p.current = [])) := by
  have hstack : ∀ stack : List Bytes, stack ≠ [] →
      chr '/' :: [chr '/'].intercalate stack.reverse = renderStack stack := by
    intro stack hne
    rw [cons_intercalate (List.reverse_ne_nil_iff.mpr hne), ← renderStack_reverse,
      List.reverse_reverse]
  -- Dots at the end leave the closed segments, or the root slash.
  have hdots : (if p.closed = [] then [chr '/'] else renderStack p.closed) =
      renderSegments p.closed.reverse false := by
    rw [renderSegments_false]
    split
    · next hnil =>
      rw [hnil]
      rfl
    · next hne => exact (hstack _ hne).symm
  rcases current_cases p with ⟨hc, -, hcl, hf⟩ | ⟨hc, -⟩ | ⟨hc, -⟩ | ⟨-, hcl, hf, hne, -⟩
  · rw [hf, hcl, render, hc, decide_eq_true rfl, renderSegments]
    rcases eq_or_ne p.stack [] with hnil | hne
    · rw [hnil]
      rfl
    · rw [hstack _ hne, if_pos ⟨rfl, List.reverse_ne_nil_iff.mpr hne⟩]
  · rw [finish, if_pos (.inl hc), hc, decide_eq_false (by decide)]
    exact hdots
  · rw [finish, if_pos (.inr hc), hc, decide_eq_false (by decide)]
    exact hdots
  · rw [hf, decide_eq_false hne, renderSegments_false, hcl, hstack _ (List.cons_ne_nil _ _)]
    rfl

/-- A path read character by character is its segments resolved one by one. -/
theorem finish_foldl_root (path : Bytes) :
    (path.foldl step root).finish = renderSegments (resolve (path.splitOn (chr '/')))
      (decide ((path.splitOn (chr '/')).getLast? = some [])) := by
  obtain ⟨head, rest, hsplit⟩ := List.exists_cons_of_ne_nil (List.splitOn_ne_nil (chr '/') path)
  obtain ⟨hclosed, hcurrent⟩ := foldl_step_segments path root hsplit
  rw [show root.current ++ head = head from rfl] at hclosed hcurrent
  rw [finish_eq_renderSegments, hclosed, hsplit, hcurrent]
  simp only [Option.some.injEq]
  rfl

/-! ## 5. Paths that are final -/

/-- A segment that stays on the stack. -/
structure Kept (seg : Bytes) : Prop where
  ne_nil : seg ≠ []
  ne_dot : seg ≠ bytes "."
  ne_dots : seg ≠ bytes ".."
  slash : chr '/' ∉ seg

/-- A piece holds bytes of the text, and no delimiter. -/
theorem mem_of_mem_splitOn {s seg : Bytes} {c b : Byte} (h : seg ∈ s.splitOn c) (hb : b ∈ seg) :
    b ∈ s ∧ b ≠ c := by
  induction s generalizing seg with
  | nil =>
    rw [List.splitOn_nil, List.mem_singleton] at h
    rw [h] at hb
    exact nomatch hb
  | cons d s ih =>
    obtain ⟨head, rest, hs⟩ := List.exists_cons_of_ne_nil (List.splitOn_ne_nil c s)
    have hlater : ∀ piece ∈ head :: rest, b ∈ piece → b ∈ d :: s ∧ b ≠ c := fun piece hp hb =>
      (ih (hs ▸ hp) hb).imp_left (List.mem_cons_of_mem d)
    rw [List.splitOn_cons_eq_if_modifyHead, hs] at h
    split at h
    · rcases List.mem_cons.mp h with rfl | h
      · exact nomatch hb
      · exact hlater seg h hb
    · next hd =>
      rw [List.modifyHead_cons] at h
      rcases List.mem_cons.mp h with rfl | h
      · rcases List.mem_cons.mp hb with rfl | hb
        · exact ⟨List.mem_cons_self, fun he => hd (beq_iff_eq.mpr he)⟩
        · exact hlater head List.mem_cons_self hb
      · exact hlater seg (List.mem_cons_of_mem _ h) hb

theorem kept_pushSegment {stack : List Bytes} {seg : Bytes} (hstack : ∀ s ∈ stack, Kept s)
    (hseg : chr '/' ∉ seg) : ∀ s ∈ pushSegment stack seg, Kept s := by
  intro s hs
  unfold pushSegment at hs
  split at hs
  · exact hstack s hs
  · next hne =>
    obtain ⟨hnil, hdot⟩ := not_or.mp hne
    split at hs
    · exact hstack s (List.mem_of_mem_dropLast hs)
    · next hdots =>
      rcases List.mem_append.mp hs with hs | hs
      · exact hstack s hs
      · rw [List.mem_singleton.mp hs]
        exact ⟨hnil, hdot, hdots, hseg⟩

/-- The segments of any path are resolved to kept ones. -/
theorem kept_resolve (path : Bytes) : ∀ seg ∈ resolve (path.splitOn (chr '/')), Kept seg := by
  refine List.foldlRecOn (motive := fun stack => ∀ s ∈ stack, Kept s) _ pushSegment
    (fun s hs => nomatch hs) fun stack hstack seg hseg => ?_
  exact kept_pushSegment hstack fun hm => (mem_of_mem_splitOn hseg hm).2 rfl

/-- What is on the stack was among the segments. -/
theorem mem_of_mem_resolve {segments : List Bytes} {seg : Bytes} (h : seg ∈ resolve segments) :
    seg ∈ segments := by
  have hall : ∀ s ∈ resolve segments, s ∈ segments := by
    refine List.foldlRecOn (motive := fun stack => ∀ s ∈ stack, s ∈ segments) _ pushSegment
      (fun s hs => nomatch hs) fun stack hstack next hnext => ?_
    intro s hs
    unfold pushSegment at hs
    split at hs
    · exact hstack s hs
    · split at hs
      · exact hstack s (List.mem_of_mem_dropLast hs)
      · rcases List.mem_append.mp hs with hs | hs
        · exact hstack s hs
        · exact List.mem_singleton.mp hs ▸ hnext
  exact hall seg h

/-- Kept segments are pushed one by one. -/
theorem foldl_pushSegment_kept {segments : List Bytes} (h : ∀ seg ∈ segments, Kept seg)
    (stack : List Bytes) : segments.foldl pushSegment stack = stack ++ segments := by
  induction segments generalizing stack with
  | nil => exact (List.append_nil stack).symm
  | cons seg segments ih =>
    have hseg := h seg List.mem_cons_self
    have hpush : pushSegment stack seg = stack ++ [seg] := by
      rw [pushSegment, if_neg (not_or.mpr ⟨hseg.ne_nil, hseg.ne_dot⟩), if_neg hseg.ne_dots]
    rw [List.foldl_cons, hpush, ih fun s hs => h s (List.mem_cons_of_mem _ hs)]
    exact List.append_assoc stack [seg] segments

/-- A slash at the end opens an empty segment. -/
theorem renderSegments_true {stack : List Bytes} (h : stack ≠ []) :
    renderSegments stack true = renderSegments (stack ++ [[]]) false := by
  rw [renderSegments_false, renderSegments, if_pos ⟨rfl, h⟩, cons_intercalate h,
    cons_intercalate (List.append_ne_nil_of_left_ne_nil h _), List.map_append,
    List.flatten_append]
  rfl

/-- The segments of a path without its root slash. -/
theorem splitOn_renderSegments {stack : List Bytes} (hne : stack ≠ [])
    (h : ∀ seg ∈ stack, chr '/' ∉ seg) :
    (renderSegments stack false).tail.splitOn (chr '/') = stack := by
  rw [renderSegments_false, List.tail_cons]
  exact List.splitOn_intercalate _ h hne

/-- A path of kept segments is read back as it is. -/
theorem finish_foldl_renderSegments {stack : List Bytes} (h : ∀ seg ∈ stack, Kept seg)
    (trailing : Bool) :
    ((renderSegments stack trailing).tail.foldl step root).finish =
      renderSegments stack trailing := by
  have hslash : ∀ seg ∈ stack, chr '/' ∉ seg := fun seg hs => (h seg hs).slash
  rw [finish_foldl_root]
  rcases eq_or_ne stack [] with rfl | hne
  · cases trailing <;> rfl
  cases trailing with
  | false =>
    have hlast : stack.getLast? ≠ some [] := fun he => (h _ (List.mem_of_getLast? he)).ne_nil rfl
    rw [splitOn_renderSegments hne hslash, decide_eq_false hlast, resolve,
      foldl_pushSegment_kept h]
    rfl
  | true =>
    have hopen : ∀ seg ∈ stack ++ [[]], chr '/' ∉ seg := by
      intro seg hs
      rcases List.mem_append.mp hs with hs | hs
      · exact hslash seg hs
      · rw [List.mem_singleton.mp hs]
        exact List.not_mem_nil
    have hresolve : resolve (stack ++ [[]]) = stack := by
      rw [resolve, List.foldl_append, foldl_pushSegment_kept h]
      rfl
    rw [renderSegments_true hne, splitOn_renderSegments (by simp) hopen, hresolve,
      List.getLast?_concat, decide_eq_true rfl, renderSegments_true hne]

theorem mem_renderSegments {stack : List Bytes} {trailing : Bool} {b : Byte}
    (h : b ∈ renderSegments stack trailing) : b = chr '/' ∨ ∃ seg ∈ stack, b ∈ seg := by
  rcases List.mem_append.mp h with h | h
  · rcases eq_or_ne stack [] with rfl | hne
    · exact .inl (List.mem_singleton.mp h)
    · rw [cons_intercalate hne] at h
      obtain ⟨_, hm, hb⟩ := List.mem_flatten.mp h
      obtain ⟨seg, hseg, rfl⟩ := List.mem_map.mp hm
      exact (List.mem_cons.mp hb).imp id fun hb => ⟨seg, hseg, hb⟩
  · split at h
    · exact .inl (List.mem_singleton.mp h)
    · exact nomatch h

theorem lowercase_renderSegments (stack : List Bytes) (trailing : Bool) :
    lowercase (renderSegments stack trailing) =
      renderSegments (stack.map lowercase) trailing := by
  have hbody : lowercase (chr '/' :: [chr '/'].intercalate stack) =
      chr '/' :: [chr '/'].intercalate (stack.map lowercase) := by
    rcases eq_or_ne stack [] with rfl | hne
    · rfl
    · rw [cons_intercalate hne, cons_intercalate (by simpa using hne), lowercase,
        List.map_flatten, List.map_map, List.map_map]
      rfl
  rw [renderSegments, lowercase_append, hbody, renderSegments]
  simp only [ne_eq, List.map_eq_nil_iff]
  split <;> rfl

/-- Letter case does not make a segment redundant. -/
theorem Kept.lowercase {seg : Bytes} (h : Kept seg) : Kept (ByteString.lowercase seg) := by
  have hdots : ∀ dots : Bytes, (∀ c ∈ dots, c = chr '.') → ByteString.lowercase seg = dots →
      seg = dots := by
    intro dots hall he
    refine Eq.trans ?_ he
    refine (List.map_id' seg).symm.trans (List.map_congr_left fun c hc => ?_)
    have hdot : tolower c = chr '.' := hall _ (he ▸ List.mem_map_of_mem hc)
    rw [hdot]
    exact (tolower_eq_iff (by decide) (by decide)).mp hdot
  refine ⟨fun he => h.ne_nil (List.map_eq_nil_iff.mp he), fun he => ?_, fun he => ?_, ?_⟩
  · exact h.ne_dot (hdots _ (by decide +kernel) he)
  · exact h.ne_dots (hdots _ (by decide +kernel) he)
  · rw [mem_lowercase (by decide) (by decide)]
    exact h.slash

/-! ## 6. Paths that go on -/

/-- No two dots among the segments step back over where the segments begin, with `own` kept
segments before them that they may drop. -/
def staysBehind (own : Nat) : List Bytes → Bool
  | [] => true
  | seg :: rest =>
    if seg = [] ∨ seg = bytes "." then staysBehind own rest
    else if seg = bytes ".." then 0 < own && staysBehind (own - 1) rest
    else staysBehind (own + 1) rest

/-- The segments that are finished by the text behind a path. A name that is open stays one, and
what it is continued with is no segment of its own. -/
def laterSegments (p : PathState) (chars : Bytes) : List Bytes :=
  match chars.splitOn (chr '/') with
  | [] => []
  | head :: rest => if p.marker = 0 ∨ head = [] then rest else (p.current ++ head) :: rest

/-- The text behind a path never steps back to before its own beginning, and no dots at its end
take away a slash that the path ends in. Nothing is lost of a path that is the root slash. -/
def GoesOn (p : PathState) (chars : Bytes) : Prop :=
  p.closed = [] ∨ (staysBehind 0 (p.laterSegments chars) = true ∧
    (p.current = [] → (chars.foldl step p).marker < 2))

instance (p : PathState) (chars : Bytes) : Decidable (p.GoesOn chars) :=
  inferInstanceAs (Decidable (_ ∨ _))

/-- What stays behind is pushed on what was there; a name at the end is pushed, too. -/
theorem foldl_pushSegment_staysBehind {segments : List Bytes} (stack own : List Bytes)
    (h : staysBehind own.length segments = true) :
    ∃ own', segments.foldl pushSegment (stack ++ own) = stack ++ own' ∧
      ∀ seg ∈ segments.getLast?, Kept seg → own' ≠ [] := by
  induction segments generalizing own with
  | nil => exact ⟨own, rfl, by simp⟩
  | cons seg rest ih =>
    have hnext : ∃ own₁, pushSegment (stack ++ own) seg = stack ++ own₁ ∧
        staysBehind own₁.length rest = true ∧ (Kept seg → own₁ ≠ []) := by
      rw [staysBehind] at h
      unfold pushSegment
      split at h
      · next hdrop =>
        rw [if_pos hdrop]
        exact ⟨own, rfl, h, fun hk => absurd hdrop (not_or.mpr ⟨hk.ne_nil, hk.ne_dot⟩)⟩
      · next hdrop =>
        rw [if_neg hdrop]
        split at h
        · next hdots =>
          rw [if_pos hdots]
          obtain ⟨hpos, hrest⟩ := (Bool.and_eq_true _ _).mp h
          have hne : own ≠ [] := List.ne_nil_of_length_pos (of_decide_eq_true hpos)
          exact ⟨own.dropLast, List.dropLast_append_of_ne_nil hne,
            by rwa [List.length_dropLast], fun hk => absurd hdots hk.ne_dots⟩
        · next hdots =>
          rw [if_neg hdots]
          exact ⟨own ++ [seg], List.append_assoc _ _ _, by simpa using h, by simp⟩
    obtain ⟨own₁, hpush, hstays, hkept⟩ := hnext
    obtain ⟨own₂, hfold, hlast⟩ := ih own₁ hstays
    rw [List.foldl_cons, hpush]
    cases rest with
    | nil =>
      refine ⟨own₁, rfl, fun s hs hk => ?_⟩
      cases hs
      exact hkept hk
    | cons next rest => exact ⟨own₂, hfold, fun s hs => hlast s (by simpa using hs)⟩

/-- The segments below those of a rendered path begin it, and a slash behind them does if something
follows. -/
theorem prefix_renderSegments {stack : List Bytes} (hstack : stack ≠ []) (own : List Bytes)
    {short trailing : Bool} (h : short = true → own ≠ [] ∨ trailing = true) :
    renderSegments stack short <+: renderSegments (stack ++ own) trailing := by
  have hne : stack ++ own ≠ [] := List.append_ne_nil_of_left_ne_nil hstack own
  rw [renderSegments, renderSegments, cons_intercalate hstack, cons_intercalate hne,
    List.map_append, List.flatten_append, List.append_assoc, List.prefix_append_right_inj]
  cases short with
  | false => exact List.nil_prefix
  | true =>
    rw [if_pos ⟨rfl, hstack⟩]
    cases own with
    | nil =>
      rw [if_pos ⟨(h rfl).resolve_left (absurd rfl), hne⟩]
      exact List.prefix_rfl
    | cons seg own => exact ⟨_, rfl⟩

/-- An open segment that is neither empty nor dots is a name. -/
theorem kept_current {p : PathState} (hp : p.marker = 0) : Kept p.current := by
  rcases current_cases p with ⟨-, hk, -⟩ | ⟨-, hk, -⟩ | ⟨-, hk, -⟩ | ⟨-, -, -, h1, h2, h3⟩
  · exact absurd (hk.symm.trans hp) (by decide)
  · exact absurd (hk.symm.trans hp) (by decide)
  · exact absurd (hk.symm.trans hp) (by decide)
  · exact ⟨h1, h2, h3, p.clean _ List.mem_cons_self⟩

/-- A name that goes on stays a name. -/
theorem pushSegment_name {seg : Bytes} (h : Kept seg) (stack : List Bytes) (more : Bytes) :
    pushSegment stack (seg ++ more) = stack ++ [seg ++ more] := by
  have hdot : seg ++ more ≠ bytes "." := by
    intro he
    rcases List.append_eq_singleton_iff.mp he with ⟨hs, -⟩ | ⟨hs, -⟩
    · exact h.ne_nil hs
    · exact h.ne_dot hs
  have hdots : seg ++ more ≠ bytes ".." := by
    intro he
    rcases List.append_eq_cons_iff.mp he with ⟨hs, -⟩ | ⟨t, hs, ht⟩
    · exact h.ne_nil hs
    · rcases List.append_eq_singleton_iff.mp ht.symm with ⟨rfl, -⟩ | ⟨rfl, -⟩
      · exact h.ne_dot hs
      · exact h.ne_dots hs
  rw [pushSegment, if_neg (not_or.mpr ⟨List.append_ne_nil_of_left_ne_nil h.ne_nil _, hdot⟩),
    if_neg hdots]

/-- A name that goes on, in the rendered path. -/
theorem prefix_renderSegments_name (stack own : List Bytes) (seg more : Bytes) (trailing : Bool) :
    renderSegments (stack ++ [seg]) false <+:
      renderSegments (stack ++ (seg ++ more) :: own) trailing := by
  rw [renderSegments_false, renderSegments, cons_intercalate (by simp), cons_intercalate (by simp),
    List.map_append, List.map_append, List.flatten_append, List.flatten_append, List.append_assoc,
    List.prefix_append_right_inj]
  simp only [List.map_cons, List.map_nil, List.flatten_cons, List.flatten_nil, List.append_nil,
    List.cons_append, List.append_assoc]
  exact ⟨_, rfl⟩

theorem laterSegments_eq {p : PathState} {chars head : Bytes} {rest : List Bytes}
    (h : chars.splitOn (chr '/') = head :: rest) :
    p.laterSegments chars =
      if p.marker = 0 ∨ head = [] then rest else (p.current ++ head) :: rest := by
  rw [laterSegments, h]

/-- What is closed of a path that ends in no name stays on the stack, and a slash at its end stays
behind it. -/
theorem closed_foldl_staysBehind {p : PathState} {chars : Bytes} (hp : p.marker ≠ 0)
    (hstays : staysBehind 0 (p.laterSegments chars) = true)
    (htrail : p.current = [] → (chars.foldl step p).marker < 2) :
    ∃ own, (chars.foldl step p).closed.reverse = p.closed.reverse ++ own ∧
      (p.current = [] → own ≠ [] ∨ (chars.foldl step p).current = []) := by
  obtain ⟨head, rest, hsplit⟩ := List.exists_cons_of_ne_nil (List.splitOn_ne_nil (chr '/') chars)
  obtain ⟨hclosed, hcurrent⟩ := foldl_step_segments chars p hsplit
  rw [laterSegments_eq hsplit] at hstays
  generalize chars.foldl step p = q at *
  -- The last segment is open: it is empty, or a name that has been pushed.
  have hopen : p.current = [] → q.current = [] ∨ Kept q.current := by
    intro hc
    rcases current_cases q with ⟨hq, -⟩ | ⟨-, hk, -⟩ | ⟨-, hk, -⟩ | ⟨hk, -⟩
    · exact .inl hq
    · exact absurd (htrail hc) (by omega)
    · exact absurd (htrail hc) (by omega)
    · exact .inr (kept_current hk)
  by_cases hhead : head = []
  · rw [if_pos (.inr hhead)] at hstays
    obtain ⟨own, hfold, hlast⟩ :=
      foldl_pushSegment_staysBehind p.closed.reverse [] hstays
    rw [List.append_nil] at hfold
    rw [hhead, List.append_nil] at hclosed hcurrent
    rw [List.foldl_cons, ← closed_eq_pushSegment, hfold] at hclosed
    refine ⟨own, hclosed, fun hc => ?_⟩
    refine (hopen hc).elim .inr fun hkept => ?_
    cases rest with
    | nil => exact absurd (Option.some.inj hcurrent) (hc ▸ hkept.ne_nil.symm)
    | cons next rest =>
      rw [List.getLast?_cons_cons] at hcurrent
      exact .inl (hlast _ hcurrent hkept)
  · rw [if_neg (not_or.mpr ⟨hp, hhead⟩)] at hstays
    obtain ⟨own, hfold, hlast⟩ :=
      foldl_pushSegment_staysBehind p.stack.reverse [] hstays
    rw [List.append_nil] at hfold
    rw [hfold] at hclosed
    rcases current_cases p with ⟨-, -, hcl, -⟩ | ⟨-, -, hcl⟩ | ⟨hc, -, hcl⟩ | ⟨hk, -⟩
    · refine ⟨own, by rw [hclosed, hcl], fun hc => ?_⟩
      exact (hopen hc).elim .inr fun hkept => .inl (hlast _ hcurrent hkept)
    · refine ⟨own, by rw [hclosed, hcl], fun hc => ?_⟩
      exact (hopen hc).elim .inr fun hkept => .inl (hlast _ hcurrent hkept)
    · -- Two dots that go on are a name and drop nothing.
      cases hs : p.stack with
      | nil => exact ⟨own, by rw [hclosed, hcl, hs]; rfl, fun he => by rw [hc] at he; cases he⟩
      | cons top below =>
        refine ⟨top :: own, ?_, fun he => by rw [hc] at he; cases he⟩
        rw [hclosed, hcl, hs]
        simp
    · exact absurd hk hp

/-- A path is the front of what it becomes when the text behind it only goes on. -/
theorem prefix_finish_foldl {p : PathState} {chars : Bytes} (h : p.GoesOn chars) :
    p.finish <+: (chars.foldl step p).finish := by
  rw [finish_eq_renderSegments p, finish_eq_renderSegments (chars.foldl step p)]
  rcases eq_or_ne p.closed [] with hnil | hne
  · -- Every path begins with the root slash.
    have hroot : ∀ trailing, renderSegments [] trailing = [chr '/'] := by simp [renderSegments]
    rw [hnil, List.reverse_nil, hroot]
    exact ⟨_, rfl⟩
  obtain ⟨hstays, htrail⟩ := h.resolve_left hne
  by_cases hname : p.marker = 0
  · have hkept := kept_current hname
    obtain ⟨head, rest, hsplit⟩ :=
      List.exists_cons_of_ne_nil (List.splitOn_ne_nil (chr '/') chars)
    rw [laterSegments_eq hsplit, if_pos (.inl hname)] at hstays
    obtain ⟨own, hfold, -⟩ := foldl_pushSegment_staysBehind
      (p.stack.reverse ++ [p.current ++ head]) [] hstays
    have hpush := pushSegment_name hkept p.stack.reverse []
    rw [List.append_nil] at hfold hpush
    rw [closed_eq_pushSegment, hpush, (foldl_step_segments chars p hsplit).1, List.foldl_cons,
      pushSegment_name hkept, hfold, decide_eq_false hkept.ne_nil, List.append_assoc]
    exact prefix_renderSegments_name _ own _ head _
  · obtain ⟨own, hclosed, hslash⟩ := closed_foldl_staysBehind hname hstays htrail
    rw [hclosed]
    refine prefix_renderSegments (List.reverse_ne_nil_iff.mpr hne) own fun hc => ?_
    exact (hslash (of_decide_eq_true hc)).imp_right decide_eq_true

end PathState

end ByteString
