import Mathlib.Data.List.Nodup
import Mathlib.Logic.Function.Basic

/-!
# Leases

Resources are numbered as they are created. A resource is in a pool, a holder uses it, or it is
gone. A holder uses one resource at a time.

Results:
1. `Valid.moves`: no step gives a resource to two holders.
2. `Gone.moves`: what is gone is never used again.
3. `gone_of_drop`, `gone_of_front`: what a holder drops and what is discarded from the pool is gone.
-/

namespace Leases

variable {Holder : Type} {uses uses' : Holder → Option Nat} {pool pool' : List Nat}
  {created created' c : Nat} {h : Holder}

structure Valid (uses : Holder → Option Nat) (pool : List Nat) (created : Nat) : Prop where
  unique : ∀ h h' c, uses h = some c → uses h' = some c → h = h'
  unused : ∀ c ∈ pool, ∀ h, uses h ≠ some c
  nodup : pool.Nodup
  used_lt : ∀ h c, uses h = some c → c < created
  pool_lt : ∀ c ∈ pool, c < created

/-- No holder uses the resource, and none will get it from the pool. -/
structure Gone (uses : Holder → Option Nat) (pool : List Nat) (created c : Nat) : Prop where
  lt : c < created
  notPooled : c ∉ pool
  notUsed : ∀ h, uses h ≠ some c

theorem valid_empty : Valid (fun _ : Holder => none) [] 0 where
  unique _ _ _ hc := by cases hc
  unused _ hc := by cases hc
  nodup := List.nodup_nil
  used_lt _ _ hc := by cases hc
  pool_lt _ hc := by cases hc

variable [DecidableEq Holder]

/-- What one step of a holder can do. -/
inductive Moves (uses : Holder → Option Nat) (pool : List Nat) (created : Nat) (h : Holder) :
    (Holder → Option Nat) → List Nat → Nat → Prop
  /-- Resources may be taken out of the pool and discarded. -/
  | discard (pool' : List Nat) (hpool : pool'.Sublist pool) :
      Moves uses pool created h uses pool' created
  | take (front : List Nat) (c : Nat) (pool' : List Nat) (hpool : pool = front ++ c :: pool') :
      Moves uses pool created h (Function.update uses h (some c)) pool' created
  | create :
      Moves uses pool created h (Function.update uses h (some created)) pool (created + 1)
  | drop : Moves uses pool created h (Function.update uses h none) pool created
  | give (c : Nat) (hc : uses h = some c) :
      Moves uses pool created h (Function.update uses h none) (pool ++ [c]) created

/-- After the step the holder has its new resource, and all others have what they had. -/
theorem uses_update {o : Option Nat} {k : Holder} (hk : Function.update uses h o k = some c) :
    (k = h ∧ o = some c) ∨ uses k = some c := by
  by_cases hkh : k = h
  · rw [hkh, Function.update_self] at hk
    exact .inl ⟨hkh, hk⟩
  · rw [Function.update_of_ne hkh] at hk
    exact .inr hk

theorem uses_update_none {k : Holder} (hk : Function.update uses h none k = some c) :
    uses k = some c :=
  (uses_update hk).resolve_left fun hnone => by cases hnone.2

/-- A holder gets a resource that no holder uses. -/
theorem unique_update (hvalid : Valid uses pool created) (hc : ∀ k, uses k ≠ some c)
    (k k' : Holder) (d : Nat) (hk : Function.update uses h (some c) k = some d)
    (hk' : Function.update uses h (some c) k' = some d) : k = k' := by
  obtain ⟨hkh, hd⟩ | hd := uses_update hk
  · obtain ⟨hkh', -⟩ | hd' := uses_update hk'
    · exact hkh.trans hkh'.symm
    · exact absurd (hd'.trans hd.symm) (hc k')
  · obtain ⟨-, hd'⟩ | hd' := uses_update hk'
    · exact absurd (hd.trans hd'.symm) (hc k)
    · exact hvalid.unique k k' d hd hd'

omit [DecidableEq Holder] in
theorem Valid.discard (hvalid : Valid uses pool created) (hpool : pool'.Sublist pool) :
    Valid uses pool' created where
  unique := hvalid.unique
  unused c hc := hvalid.unused c (hpool.subset hc)
  nodup := hvalid.nodup.sublist hpool
  used_lt := hvalid.used_lt
  pool_lt c hc := hvalid.pool_lt c (hpool.subset hc)

theorem Valid.take {front : List Nat} (hvalid : Valid uses (front ++ c :: pool') created) :
    Valid (Function.update uses h (some c)) pool' created where
  unique := unique_update hvalid (hvalid.unused c (by simp))
  unused d hd k hk := by
    obtain ⟨-, hcd⟩ | hk := uses_update hk
    · have hnodup := List.nodup_cons.mp (List.nodup_append.mp hvalid.nodup).2.1
      exact hnodup.1 (Option.some.inj hcd ▸ hd)
    · exact hvalid.unused d (by simp [hd]) k hk
  nodup := (List.nodup_cons.mp (List.nodup_append.mp hvalid.nodup).2.1).2
  used_lt k d hk := by
    obtain ⟨-, hcd⟩ | hk := uses_update hk
    · exact Option.some.inj hcd ▸ hvalid.pool_lt c (by simp)
    · exact hvalid.used_lt k d hk
  pool_lt d hd := hvalid.pool_lt d (by simp [hd])

theorem Valid.create (hvalid : Valid uses pool created) :
    Valid (Function.update uses h (some created)) pool (created + 1) where
  unique := unique_update hvalid fun k hk => absurd (hvalid.used_lt k _ hk) (Nat.lt_irrefl _)
  unused d hd k hk := by
    obtain ⟨-, hnew⟩ | hk := uses_update hk
    · exact absurd (hvalid.pool_lt d hd) (Option.some.inj hnew ▸ Nat.lt_irrefl _)
    · exact hvalid.unused d hd k hk
  nodup := hvalid.nodup
  used_lt k d hk := by
    obtain ⟨-, hnew⟩ | hk := uses_update hk
    · exact Option.some.inj hnew ▸ Nat.lt_succ_self created
    · exact Nat.lt_succ_of_lt (hvalid.used_lt k d hk)
  pool_lt d hd := Nat.lt_succ_of_lt (hvalid.pool_lt d hd)

theorem Valid.drop (hvalid : Valid uses pool created) :
    Valid (Function.update uses h none) pool created where
  unique k k' d hk hk' := hvalid.unique k k' d (uses_update_none hk) (uses_update_none hk')
  unused d hd k hk := hvalid.unused d hd k (uses_update_none hk)
  nodup := hvalid.nodup
  used_lt k d hk := hvalid.used_lt k d (uses_update_none hk)
  pool_lt := hvalid.pool_lt

/-- The holder had the only hold on its resource. -/
theorem uses_ne_of_drop (hvalid : Valid uses pool created) (hc : uses h = some c) (k : Holder) :
    Function.update uses h none k ≠ some c := by
  intro hk
  have hkh := hvalid.unique k h c (uses_update_none hk) hc
  rw [hkh, Function.update_self] at hk
  cases hk

theorem Valid.give (hvalid : Valid uses pool created) (hc : uses h = some c) :
    Valid (Function.update uses h none) (pool ++ [c]) created where
  unique := hvalid.drop.unique
  unused d hd := by
    rcases List.mem_append.mp hd with hd | hd
    · exact hvalid.drop.unused d hd
    · rw [List.mem_singleton.mp hd]
      exact uses_ne_of_drop hvalid hc
  nodup := by
    refine List.nodup_append.mpr ⟨hvalid.nodup, List.nodup_singleton c, ?_⟩
    intro d hd e he hde
    rw [List.mem_singleton.mp he] at hde
    exact hvalid.unused c (hde ▸ hd) h hc
  used_lt := hvalid.drop.used_lt
  pool_lt d hd := by
    rcases List.mem_append.mp hd with hd | hd
    · exact hvalid.pool_lt d hd
    · rw [List.mem_singleton.mp hd]
      exact hvalid.used_lt h c hc

theorem Valid.moves (hvalid : Valid uses pool created)
    (hmoves : Moves uses pool created h uses' pool' created') : Valid uses' pool' created' := by
  cases hmoves with
  | discard pool' hpool => exact hvalid.discard hpool
  | take front c pool' hpool => exact (hpool ▸ hvalid).take
  | create => exact hvalid.create
  | drop => exact hvalid.drop
  | give c hc => exact hvalid.give hc

/-- A resource that is gone comes back to no holder and not to the pool. -/
theorem Gone.moves (hgone : Gone uses pool created c)
    (hmoves : Moves uses pool created h uses' pool' created') : Gone uses' pool' created' c := by
  cases hmoves with
  | discard pool' hpool =>
    exact ⟨hgone.lt, fun hc => hgone.notPooled (hpool.subset hc), hgone.notUsed⟩
  | take front d pool' hpool =>
    refine ⟨hgone.lt, fun hc => hgone.notPooled (by simp [hpool, hc]), ?_⟩
    intro k hk
    obtain ⟨-, hd⟩ | hk := uses_update hk
    · exact hgone.notPooled (by simp [hpool, Option.some.inj hd])
    · exact hgone.notUsed k hk
  | create =>
    refine ⟨Nat.lt_succ_of_lt hgone.lt, hgone.notPooled, ?_⟩
    intro k hk
    obtain ⟨-, hd⟩ | hk := uses_update hk
    · exact absurd hgone.lt (Option.some.inj hd ▸ Nat.lt_irrefl _)
    · exact hgone.notUsed k hk
  | drop =>
    exact ⟨hgone.lt, hgone.notPooled, fun k hk => hgone.notUsed k (uses_update_none hk)⟩
  | give d hd =>
    refine ⟨hgone.lt, fun hc => ?_, fun k hk => hgone.notUsed k (uses_update_none hk)⟩
    rcases List.mem_append.mp hc with hc | hc
    · exact hgone.notPooled hc
    · exact hgone.notUsed h (List.mem_singleton.mp hc ▸ hd)

theorem gone_of_drop (hvalid : Valid uses pool created) (hc : uses h = some c) :
    Gone (Function.update uses h none) pool created c where
  lt := hvalid.used_lt h c hc
  notPooled hpool := hvalid.unused c hpool h hc
  notUsed := uses_ne_of_drop hvalid hc

omit [DecidableEq Holder] in
theorem gone_of_discard (hvalid : Valid uses pool created) (hc : c ∈ pool) (hpool : c ∉ pool') :
    Gone uses pool' created c where
  lt := hvalid.pool_lt c hc
  notPooled := hpool
  notUsed := hvalid.unused c hc

/-- What stood before the resource that is taken is discarded. -/
theorem gone_of_front {front : List Nat} {d : Nat}
    (hvalid : Valid uses (front ++ d :: pool') created) (hc : c ∈ front) :
    Gone (Function.update uses h (some d)) pool' created c := by
  have hdisjoint := (List.nodup_append.mp hvalid.nodup).2.2 c hc
  refine ⟨hvalid.pool_lt c (List.mem_append_left _ hc),
    fun hpool => hdisjoint c (List.mem_cons_of_mem _ hpool) rfl, fun k hk => ?_⟩
  obtain ⟨-, hd⟩ | hk := uses_update hk
  · exact hdisjoint d List.mem_cons_self (Option.some.inj hd).symm
  · exact hvalid.unused c (List.mem_append_left _ hc) k hk

end Leases
