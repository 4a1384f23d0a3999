import Mathlib.Data.List.Basic

/-!
# Frames of a stream

A stream is cut at a separator.  `frames` are the pieces that a separator ends, and
`rest` is what follows the last one.  Whoever receives the stream in parts keeps the
rest and puts the next part behind it.

`frames_append` and `rest_append` say that this loses nothing: the frames of two parts
are the frames of the first, and then the frames of its rest with the second part
behind it.  `framing_induction` is the induction on the first separator that the loop
of a receiver follows.
-/

namespace FpgaEthash
namespace Framing

variable {α : Type*} [DecidableEq α] (d : α)

/-- The pieces that a separator ends. -/
def frames (s : List α) : List (List α) := (s.splitOn d).dropLast

/-- What follows the last separator. -/
def rest (s : List α) : List α := (s.splitOn d).getLast (List.splitOn_ne_nil d s)

variable {d}

theorem frames_of_notMem {s : List α} (h : d ∉ s) : frames d s = [] := by
  rw [frames, List.splitOn_eq_singleton h]
  rfl

theorem rest_of_notMem {s : List α} (h : d ∉ s) : rest d s = s := by
  simp only [rest, List.splitOn_eq_singleton h, List.getLast_singleton]

theorem frames_cons {xs : List α} (h : d ∉ xs) (t : List α) :
    frames d (xs ++ d :: t) = xs :: frames d t := by
  rw [frames, List.splitOn_append_cons_self_of_not_mem h,
    List.dropLast_cons_of_ne_nil (List.splitOn_ne_nil d t), frames]

theorem rest_cons {xs : List α} (h : d ∉ xs) (t : List α) :
    rest d (xs ++ d :: t) = rest d t := by
  simp only [rest, List.splitOn_append_cons_self_of_not_mem h,
    List.getLast_cons (List.splitOn_ne_nil d t)]

/-- **Induction on the first separator.** -/
theorem framing_induction {P : List α → Prop} (hrest : ∀ s, d ∉ s → P s)
    (hcons : ∀ xs t, d ∉ xs → P t → P (xs ++ d :: t)) (s : List α) : P s := by
  induction hlen : s.length using Nat.strongRecOn generalizing s with
  | ind n ih =>
    by_cases h : d ∈ s
    · obtain ⟨xs, t, rfl, hxs⟩ := List.eq_append_cons_of_mem h
      refine hcons xs t hxs (ih t.length ?_ t rfl)
      rw [← hlen, List.length_append, List.length_cons]
      omega
    · exact hrest s h

theorem notMem_rest (s : List α) : d ∉ rest d s := by
  induction s using framing_induction (d := d) with
  | hrest s h => rwa [rest_of_notMem h]
  | hcons xs t h ih => rwa [rest_cons h]

/-- **The frames of two parts.** -/
theorem frames_append (s t : List α) :
    frames d (s ++ t) = frames d s ++ frames d (rest d s ++ t) := by
  induction s using framing_induction (d := d) with
  | hrest s h => rw [frames_of_notMem h, rest_of_notMem h, List.nil_append]
  | hcons xs u h ih =>
    rw [List.append_assoc, List.cons_append, frames_cons h, frames_cons h, rest_cons h, ih,
      List.cons_append]

/-- **The rest of two parts.** -/
theorem rest_append (s t : List α) :
    rest d (s ++ t) = rest d (rest d s ++ t) := by
  induction s using framing_induction (d := d) with
  | hrest s h => rw [rest_of_notMem h]
  | hcons xs u h ih => rw [List.append_assoc, List.cons_append, rest_cons h, rest_cons h, ih]

end Framing
end FpgaEthash
