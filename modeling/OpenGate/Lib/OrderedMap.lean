import Mathlib

/-!
# Ordered maps: sums over the entries

`Std.ExtTreeMap` is the ordered map of the model.  Here is what an insertion and
an erasure do to its list of entries, and to a sum taken over them in a
commutative monoid.
-/

namespace OpenGate.Lib

open Std List Option

variable {α β : Type} {cmp : α → α → Ordering} [TransCmp cmp] {k : α}

section

variable (t : ExtTreeMap α β cmp)

theorem nodup_toList [LawfulEqCmp cmp] : t.toList.Nodup := by
  refine t.distinct_keys_toList.imp ?_
  rintro a _ distinct rfl
  exact distinct ReflCmp.compare_self

theorem nodup_keys [LawfulEqCmp cmp] : (t.toList.map Prod.fst).Nodup := by
  rw [List.Nodup, pairwise_map]
  refine t.distinct_keys_toList.imp ?_
  intro a b distinct same
  rw [same] at distinct
  exact distinct ReflCmp.compare_self

theorem insert_self [LawfulEqCmp cmp] [DecidableEq α] (k a : α) (v : β) :
    (t.insert k v)[a]? = if k = a then some v else t[a]? := by
  rw [ExtTreeMap.getElem?_insert]
  by_cases same : k = a
  · rw [if_pos same, if_pos (LawfulEqCmp.compare_eq_iff_eq.mpr same)]
  · rw [if_neg same, if_neg (fun eq => same (LawfulEqCmp.compare_eq_iff_eq.mp eq))]

theorem erase_self [LawfulEqCmp cmp] [DecidableEq α] {k a : α} :
    (t.erase k)[a]? = if k = a then none else t[a]? := by
  rw [ExtTreeMap.getElem?_erase]
  by_cases same : k = a
  · rw [if_pos same, if_pos (LawfulEqCmp.compare_eq_iff_eq.mpr same)]
  · rw [if_neg same, if_neg (fun eq => same (LawfulEqCmp.compare_eq_iff_eq.mp eq))]

end

/-- An entry and the map without it. -/
theorem toList_perm_of_getElem? [LawfulEqCmp cmp] [DecidableEq α] {t : ExtTreeMap α β cmp} {v : β}
    (here : t[k]? = some v) : t.toList.Perm ((k, v) :: (t.erase k).toList) := by
  have absent : (k, v) ∉ (t.erase k).toList := by
    rw [ExtTreeMap.mem_toList_iff_getElem?_eq_some, erase_self, if_pos rfl]
    exact some_ne_none v ∘ Eq.symm
  rw [perm_ext_iff_of_nodup (nodup_toList t) (nodup_cons.mpr ⟨absent, nodup_toList _⟩)]
  rintro ⟨a, w⟩
  rw [mem_cons, ExtTreeMap.mem_toList_iff_getElem?_eq_some,
    ExtTreeMap.mem_toList_iff_getElem?_eq_some, erase_self, Prod.mk.injEq]
  by_cases same : k = a
  · subst same
    rw [if_pos rfl, here]
    simp [eq_comm]
  · rw [if_neg same]
    have other : ¬ a = k := fun eq => same eq.symm
    simp [other]

theorem erase_of_none [LawfulEqCmp cmp] [DecidableEq α] {t : ExtTreeMap α β cmp}
    (absent : t[k]? = none) : t.erase k = t := by
  refine ExtTreeMap.ext_getElem? fun a => ?_
  rw [erase_self]
  split
  next same => rw [← same, absent]
  · rfl

theorem erase_insert [LawfulEqCmp cmp] [DecidableEq α] {t : ExtTreeMap α β cmp} {v : β} :
    (t.insert k v).erase k = t.erase k := by
  refine ExtTreeMap.ext_getElem? fun a => ?_
  rw [erase_self, erase_self, insert_self]
  split <;> rfl

/-- The entries that pass a test. -/
theorem filter_getElem? [LawfulEqCmp cmp] {t : ExtTreeMap α β cmp} (f : α → β → Bool) :
    (t.filter f)[k]? = t[k]?.filter (f k) := by
  refine Option.ext fun v => ?_
  rw [← ExtTreeMap.mem_toList_iff_getElem?_eq_some, ExtTreeMap.toList_filter, mem_filter,
    ExtTreeMap.mem_toList_iff_getElem?_eq_some, filter_eq_some_iff]

/-- What the entries of a map become in another, each merged into what stands there. -/
theorem foldl_insert {γ : Type} [LawfulEqCmp cmp] [DecidableEq α] (f : α → β → Option γ → γ)
    (t : ExtTreeMap α γ cmp) (s : ExtTreeMap α β cmp) (k : α) :
    (s.foldl (fun t a b => t.insert a (f a b t[a]?)) t)[k]?
      = (s[k]?).elim t[k]? fun b => some (f k b t[k]?) := by
  have merged : ∀ (l : List (α × β)) (t : ExtTreeMap α γ cmp), (l.map Prod.fst).Nodup →
      (∀ b, (k, b) ∈ l → (l.foldl (fun t e => t.insert e.1 (f e.1 e.2 t[e.1]?)) t)[k]?
        = some (f k b t[k]?)) ∧
      ((∀ b, (k, b) ∉ l) → (l.foldl (fun t e => t.insert e.1 (f e.1 e.2 t[e.1]?)) t)[k]?
        = t[k]?) := by
    intro l
    induction l with
    | nil => exact fun t _ => ⟨nofun, fun _ => rfl⟩
    | cons e l ih =>
      intro t distinct
      obtain ⟨fresh, distinct⟩ := nodup_cons.mp distinct
      obtain ⟨hit, miss⟩ := ih (t.insert e.1 (f e.1 e.2 t[e.1]?)) distinct
      rw [insert_self] at hit miss
      refine ⟨fun b here => ?_, fun absent => ?_⟩
      · rcases mem_cons.mp here with rfl | later
        · have gone : ∀ c, (k, c) ∉ l := fun c inside =>
            fresh (mem_map.mpr ⟨(k, c), inside, rfl⟩)
          rw [foldl_cons, miss gone, if_pos rfl]
        · have other : e.1 ≠ k := by
            rintro rfl
            exact fresh (mem_map.mpr ⟨(e.1, b), later, rfl⟩)
          rw [foldl_cons, hit b later, if_neg other]
      · have other : e.1 ≠ k := by
          rintro rfl
          exact absent e.2 mem_cons_self
        rw [foldl_cons, miss fun b inside => absent b (mem_cons_of_mem _ inside),
          if_neg other]
  obtain ⟨hit, miss⟩ := merged s.toList t (nodup_keys s)
  rw [ExtTreeMap.foldl_eq_foldl_toList]
  cases here : s[k]? with
  | some b => exact hit b (ExtTreeMap.mem_toList_iff_getElem?_eq_some.mpr here)
  | none =>
    refine miss fun b inside => ?_
    rw [ExtTreeMap.mem_toList_iff_getElem?_eq_some, here] at inside
    cases inside

def total {M : Type} [AddCommMonoid M] (t : ExtTreeMap α β cmp) (f : α → β → M) : M :=
  (t.toList.map fun e => f e.1 e.2).sum

section Sums

variable {M : Type} [AddCommMonoid M] [LawfulEqCmp cmp] [DecidableEq α]
  {t : ExtTreeMap α β cmp} {f : α → β → M}

/-- What the entry under a key counts, nothing where there is none. -/
def counted (t : ExtTreeMap α β cmp) (f : α → β → M) (k : α) : M := (t[k]?).elim 0 (f k)

theorem total_eq_erase (k : α) : total t f = counted t f k + total (t.erase k) f := by
  cases here : t[k]? with
  | none => rw [counted, here, erase_of_none here, elim_none, zero_add]
  | some v =>
    have sums := ((toList_perm_of_getElem? here).map fun e => f e.1 e.2).sum_eq
    rw [counted, here, elim_some]
    exact sums

theorem total_insert (k : α) (v : β) :
    total (t.insert k v) f = f k v + total (t.erase k) f := by
  rw [total_eq_erase k, erase_insert, counted, insert_self, if_pos rfl, elim_some]

omit [LawfulEqCmp cmp] [DecidableEq α] in
@[simp] theorem total_empty : total (∅ : ExtTreeMap α β cmp) f = 0 := rfl

end Sums

end OpenGate.Lib
