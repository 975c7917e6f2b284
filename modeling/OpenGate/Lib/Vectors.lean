import Mathlib

/-!
# Vectors

`Vec::swap_remove` takes one item out and puts the last in its place: what is left is
a permutation of the rest.  A map that may fail answers when it answers on every item.
-/

namespace OpenGate.Lib

open List

variable {α : Type}

def swapRemove (l : List α) (i : Nat) : Option (α × List α) := do
  let taken ← l[i]?
  let last ← l.getLast?
  some (taken, (l.set i last).dropLast)

variable {l : List α} {p : α → Bool} {rest : List α} {i : Nat}

theorem perm_of_swapRemove {a : α} (taken : swapRemove l i = some (a, rest)) :
    l[i]? = some a ∧ l ~ a :: rest := by
  rcases eq_nil_or_concat l with rfl | ⟨init, last, rfl⟩
  · cases taken
  · rw [concat_eq_append] at taken ⊢
    by_cases inside : i < init.length
    · -- The last item moves to where the taken one stood.
      have here : (init ++ [last])[i]? = some init[i] := by
        rw [getElem?_append_left inside, getElem?_eq_getElem inside]
      simp only [swapRemove, here, getLast?_append, getLast?_singleton, Option.some_or,
        set_append, if_pos inside, dropLast_concat, Option.bind_eq_bind, Option.bind_some,
        Option.some.injEq, Prod.mk.injEq] at taken
      obtain ⟨rfl, rfl⟩ := taken
      refine ⟨here, ?_⟩
      calc init ++ [last]
        _ ~ last :: init := perm_append_singleton last init
        _ ~ last :: init[i] :: init.eraseIdx i := (getElem_cons_eraseIdx_perm inside).symm.cons last
        _ ~ init[i] :: last :: init.eraseIdx i := .swap _ _ _
        _ ~ init[i] :: init.set i last := (set_perm_cons_eraseIdx inside last).symm.cons _
    · -- The last item itself is taken, or nothing.
      by_cases at_end : i = init.length
      · subst at_end
        simp [swapRemove] at taken
        obtain ⟨rfl, rfl⟩ := taken
        exact ⟨by simp, perm_append_singleton last init⟩
      · have beyond : (init ++ [last])[i]? = none := by
          rw [getElem?_eq_none_iff, length_append, length_singleton]
          omega
        rw [swapRemove, beyond] at taken
        cases taken

theorem exists_swapRemove (inside : i < l.length) : ∃ rest, swapRemove l i = some (l[i], rest) := by
  have nonempty : l ≠ [] := by
    rintro rfl
    exact absurd inside (Nat.not_lt_zero i)
  refine ⟨(l.set i (l.getLast nonempty)).dropLast, ?_⟩
  rw [swapRemove, getElem?_eq_getElem inside, getLast?_eq_some_getLast nonempty]
  rfl

/-- The first item that passes a test, and the vector without it. -/
def takeFirst (p : α → Bool) (l : List α) : Option (α × List α) :=
  (l.findIdx? p).bind (swapRemove l)

theorem takeFirst_some {a : α} (taken : takeFirst p l = some (a, rest)) : p a ∧ l ~ a :: rest := by
  rw [takeFirst, Option.bind_eq_some_iff] at taken
  obtain ⟨i, found, removed⟩ := taken
  obtain ⟨inside, passes, -⟩ := findIdx?_eq_some_iff_getElem.mp found
  obtain ⟨here, perm⟩ := perm_of_swapRemove removed
  rw [getElem?_eq_getElem inside, Option.some.injEq] at here
  exact ⟨here ▸ passes, perm⟩

theorem takeFirst_none : takeFirst p l = none ↔ ∀ a ∈ l, p a = false := by
  rw [takeFirst, ← findIdx?_eq_none_iff]
  constructor
  · intro none
    cases found : l.findIdx? p with
    | none => rfl
    | some i =>
      obtain ⟨inside, -⟩ := findIdx?_eq_some_iff_getElem.mp found
      obtain ⟨rest, removed⟩ := exists_swapRemove inside
      rw [found, Option.bind_some, removed] at none
      cases none
  · intro absent
    rw [absent, Option.bind_none]

variable {β : Type} {R : α → β → Prop} {l' : List β} {f : α → Option β}

theorem swapRemove_map {f : α → β} :
    swapRemove (l.map f) i = (swapRemove l i).map (Prod.map f (map f)) := by
  simp only [swapRemove, getElem?_map, getLast?_map, Option.bind_eq_bind]
  cases l[i]? with
  | none => rfl
  | some taken =>
    cases l.getLast? with
    | none => rfl
    | some last =>
      simp only [Option.map_some, Option.bind_some, Prod.map_apply, ← map_set, map_dropLast]

theorem takeFirst_map {f : α → β} (p : β → Bool) :
    takeFirst p (l.map f) = (takeFirst (p ∘ f) l).map (Prod.map f (map f)) := by
  rw [takeFirst, takeFirst, findIdx?_map]
  cases l.findIdx? (p ∘ f) with
  | none => rfl
  | some i => exact swapRemove_map

/-! ## A map that may fail -/

theorem mapM_eq_some_iff : l.mapM f = some l' ↔ Forall₂ (fun a b => f a = some b) l l' := by
  induction l generalizing l' with
  | nil =>
    rw [mapM_nil, forall₂_nil_left_iff]
    exact ⟨fun same => (Option.some.inj same).symm, fun same => congrArg some same.symm⟩
  | cons a l ih =>
    simp only [mapM_cons, Option.bind_eq_bind, Option.bind_eq_some_iff, Option.pure_def,
      Option.some.injEq, forall₂_cons_left_iff, ih]
    constructor
    · rintro ⟨b, at_a, bs, at_l, rfl⟩
      exact ⟨b, bs, at_a, at_l, rfl⟩
    · rintro ⟨b, bs, at_a, at_l, rfl⟩
      exact ⟨b, at_a, bs, at_l, rfl⟩

/-- Related items give related answers. -/
theorem rel_mapM {γ δ : Type} {S : γ → δ → Prop} {f : α → Option γ} {g : β → Option δ}
    (answers : ∀ a b, R a b → Option.Rel S (f a) (g b)) (pairs : Forall₂ R l l') :
    Option.Rel (Forall₂ S) (l.mapM f) (l'.mapM g) := by
  induction pairs with
  | nil => exact .some .nil
  | @cons a b l l' pair _ ih =>
    rw [mapM_cons, mapM_cons]
    have first := answers a b pair
    generalize f a = x, g b = y at first ⊢
    generalize l.mapM f = xs, l'.mapM g = ys at ih ⊢
    cases first with
    | none => exact .none
    | some here =>
      cases ih with
      | none => exact .none
      | some there => exact .some (.cons here there)

theorem exists_of_forall₂ (pairs : Forall₂ R l l') {b : β} (here : b ∈ l') : ∃ a ∈ l, R a b := by
  induction pairs with
  | nil => cases here
  | cons pair _ ih =>
    rcases mem_cons.mp here with rfl | later
    · exact ⟨_, mem_cons_self, pair⟩
    · obtain ⟨a, found, related⟩ := ih later
      exact ⟨a, mem_cons_of_mem _ found, related⟩

theorem forall_iff_of_forall₂ {P : α → Prop} {Q : β → Prop} (pairs : Forall₂ R l l')
    (agree : ∀ a ∈ l, ∀ b, R a b → (Q b ↔ P a)) : (∀ b ∈ l', Q b) ↔ ∀ a ∈ l, P a := by
  induction pairs with
  | nil => simp
  | cons pair _ ih =>
    rw [forall_mem_cons, forall_mem_cons, agree _ mem_cons_self _ pair,
      ih fun a here => agree a (mem_cons_of_mem _ here)]

theorem isSome_mapM_iff : (l.mapM f).isSome ↔ ∀ a ∈ l, (f a).isSome := by
  induction l with
  | nil => simp
  | cons a l ih =>
    rw [mapM_cons, forall_mem_cons, ← ih]
    cases f a <;> cases l.mapM f <;> simp

end OpenGate.Lib
