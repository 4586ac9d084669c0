import Mathlib.Data.List.Induction
import Mathlib.Data.List.Perm.Basic

/-!
# The latest element

The last element of a list that satisfies a predicate, as a loop that overwrites a variable at
every hit computes it (`latest_concat`), and as a reader of the list finds it
(`latest_eq_some_iff`).
-/

namespace Latest

variable {α β : Type*} (p : α → Bool)

/-- The element stands in the list, satisfies `q`, and no later one does. -/
def IsLatest (q : α → Prop) (l : List α) (x : α) : Prop :=
  ∃ before after, l = before ++ x :: after ∧ q x ∧ ∀ y ∈ after, ¬q y

def latest (l : List α) : Option α := l.reverse.find? p

@[simp] theorem latest_nil : latest p [] = none := rfl

theorem latest_append (a b : List α) : latest p (a ++ b) = (latest p b).or (latest p a) := by
  unfold latest
  rw [List.reverse_append, List.find?_append]

@[simp] theorem latest_concat (l : List α) (x : α) :
    latest p (l ++ [x]) = if p x then some x else latest p l := by
  rw [latest_append]
  cases h : p x <;> simp [latest, h]

theorem IsLatest.mem {q : α → Prop} {l : List α} {x : α} (h : IsLatest q l x) : x ∈ l := by
  obtain ⟨before, after, rfl, -, -⟩ := h
  exact List.mem_append_right _ List.mem_cons_self

theorem IsLatest.holds {q : α → Prop} {l : List α} {x : α} (h : IsLatest q l x) : q x := by
  obtain ⟨before, after, rfl, hx, -⟩ := h
  exact hx

theorem latest_eq_none_iff {l : List α} : latest p l = none ↔ ∀ y ∈ l, ¬p y = true := by
  simp [latest]

/-- The computed element is the latest one. -/
theorem latest_eq_some_iff {l : List α} {x : α} :
    latest p l = some x ↔ IsLatest (p · = true) l x := by
  unfold latest IsLatest
  rw [List.find?_eq_some_iff_append]
  constructor
  · rintro ⟨hx, after, before, hsplit, hafter⟩
    refine ⟨before.reverse, after.reverse, ?_, hx, fun y hy => ?_⟩
    · rw [← List.reverse_reverse l, hsplit]
      simp
    · simpa using hafter y (List.mem_reverse.1 hy)
  · rintro ⟨before, after, rfl, hx, hafter⟩
    refine ⟨hx, after.reverse, before.reverse, by simp, fun y hy => ?_⟩
    simpa using hafter y (List.mem_reverse.1 hy)

theorem latest_isSome_iff {l : List α} : (latest p l).isSome = true ↔ ∃ y ∈ l, p y = true := by
  simp [latest]

theorem latest_isSome_perm {l l' : List α} (h : l.Perm l') :
    (latest p l).isSome = (latest p l').isSome := by
  rw [Bool.eq_iff_iff, latest_isSome_iff, latest_isSome_iff]
  simp only [h.mem_iff]

/-- The last of the values that a list writes into a variable. -/
theorem getLast?_filterMap_cons (f : α → Option β) (x : α) (l : List α) (d : β) :
    ((x :: l).filterMap f).getLast?.getD d = (l.filterMap f).getLast?.getD ((f x).getD d) := by
  cases hx : f x with
  | none =>
    rw [List.filterMap_cons_none hx]
    rfl
  | some b =>
    rw [List.filterMap_cons_some hx, List.getLast?_cons]
    rfl

/-- The latest element of a concatenation is that of the last part that has one. -/
theorem latest_flatten (ls : List (List α)) :
    latest p ls.flatten = (latest (List.any · p) ls).bind (latest p) := by
  induction ls using List.reverseRecOn with
  | nil => rfl
  | append_singleton ls l ih =>
    rw [List.flatten_append, List.flatten_singleton, latest_append, latest_concat, ih]
    cases h : latest p l with
    | none =>
      have hany : l.any p = false := by
        rw [latest_eq_none_iff] at h
        simpa using h
      rw [hany, Option.none_or, if_neg (by decide)]
    | some x =>
      have hany : l.any p = true := by
        have hsome : (latest p l).isSome = true := by rw [h]; rfl
        rw [latest_isSome_iff] at hsome
        simpa using hsome
      rw [hany, Option.some_or, if_pos rfl, Option.bind_some, h]

end Latest
