/-
  Things that cover ranges of positions, one behind the other.

  * `Stacked first last lo hi xs`: each of the things covers the positions from `first` up to
    `last`, at least one of them, all between `lo` and `hi`, and ends before the next one starts;
  * `Stacked.append`: a stack above another one is one stack;
  * `Stacked.length_mul_le` bounds the number of things by the space that there is.
-/
import Mathlib.Data.Nat.Basic

namespace MentionCommands

/-- The things cover positions from `lo` up to `hi`, one behind the other. -/
structure Stacked {α : Type} (first last : α → Nat) (lo hi : Nat) (xs : List α) : Prop where
  ordered : xs.Pairwise fun a b => last a ≤ first b
  within : ∀ a ∈ xs, lo ≤ first a ∧ first a < last a ∧ last a ≤ hi

namespace Stacked

variable {α : Type} {first last : α → Nat} {lo mid hi : Nat} {xs ys : List α}

theorem nil : Stacked first last lo hi [] := ⟨.nil, by simp⟩

theorem singleton {a : α} (hlo : lo ≤ first a) (h : first a < last a) (hhi : last a ≤ hi) :
    Stacked first last lo hi [a] :=
  ⟨List.pairwise_singleton .., by simpa using ⟨hlo, h, hhi⟩⟩

theorem mono {lo' hi' : Nat} (h : Stacked first last lo hi xs) (hlo : lo' ≤ lo) (hhi : hi ≤ hi') :
    Stacked first last lo' hi' xs :=
  ⟨h.ordered, fun a ha => by have := h.within a ha; omega⟩

theorem append (hx : Stacked first last lo mid xs) (hy : Stacked first last mid hi ys)
    (hlo : lo ≤ mid) (hhi : mid ≤ hi) : Stacked first last lo hi (xs ++ ys) := by
  refine ⟨List.pairwise_append.2 ⟨hx.ordered, hy.ordered, fun a ha b hb => ?_⟩, fun a ha => ?_⟩
  · exact Nat.le_trans (hx.within a ha).2.2 (hy.within b hb).1
  · rcases List.mem_append.1 ha with h | h
    · have := hx.within a h
      omega
    · have := hy.within a h
      omega

theorem cons {a : α} (hlo : lo ≤ first a) (ha : first a < last a) (hhi : last a ≤ hi)
    (h : Stacked first last (last a) hi xs) : Stacked first last lo hi (a :: xs) :=
  (singleton hlo ha (Nat.le_refl _)).append h (by omega) hhi

theorem tail {a : α} (h : Stacked first last lo hi (a :: xs)) :
    Stacked first last (last a) hi xs := by
  obtain ⟨ha, hxs⟩ := List.pairwise_cons.1 h.ordered
  refine ⟨hxs, fun b hb => ?_⟩
  obtain ⟨-, hlt, hle⟩ := h.within b (List.mem_cons_of_mem a hb)
  exact ⟨ha b hb, hlt, hle⟩

/-- **Only so many things fit** if each of them covers `m` positions. -/
theorem length_mul_le {m : Nat} (h : Stacked first last lo hi xs) (hle : lo ≤ hi)
    (hm : ∀ a ∈ xs, first a + m ≤ last a) : lo + xs.length * m ≤ hi := by
  induction xs generalizing lo with
  | nil => simpa using hle
  | cons a xs ih =>
    obtain ⟨hlo, -, hhi⟩ := h.within a List.mem_cons_self
    have ha := hm a List.mem_cons_self
    have := ih h.tail hhi fun b hb => hm b (List.mem_cons_of_mem a hb)
    rw [List.length_cons, Nat.succ_mul]
    omega

/-- Two things of a stack that cover one position are the same. -/
theorem eq_of_cover {a b : α} {i : Nat} (h : Stacked first last lo hi xs) (ha : a ∈ xs)
    (hb : b ∈ xs) (hai : first a ≤ i ∧ i < last a) (hbi : first b ≤ i ∧ i < last b) : a = b := by
  have hordered := h.ordered
  refine List.Pairwise.forall_of_forall_of_flip
    (R := fun a b => first a ≤ i ∧ i < last a → first b ≤ i ∧ i < last b → a = b)
    (fun _ _ _ _ => rfl) (hordered.imp ?_) (hordered.imp ?_) ha hb hai hbi
  · intro a b hab hai hbi
    omega
  · intro a b hab hbi hai
    omega

end Stacked

end MentionCommands
