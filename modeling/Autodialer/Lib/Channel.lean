import Mathlib.Data.List.Forall2

/-!
# Channels that lose and repeat

A channel takes messages and gives them out in order; each may be lost, or come out several times
in a row. What comes out of a sequence of messages is, part by part, what comes out of its parts.
-/

universe u

namespace Channel

variable {α : Type u} {a : α} {sent sent' got : List α}

/-- `got` may come out when `sent` has been put in. -/
inductive Delivered : List α → List α → Prop
  | nil : Delivered [] []
  /-- The first message comes out no more. -/
  | next {a : α} {sent got : List α} : Delivered sent got → Delivered (a :: sent) got
  /-- The first message comes out, and may do so again. -/
  | out {a : α} {sent got : List α} : Delivered (a :: sent) got → Delivered (a :: sent) (a :: got)

namespace Delivered

theorem refl (sent : List α) : Delivered sent sent := by
  induction sent with
  | nil => exact .nil
  | cons a sent ih => exact .out (.next ih)

/-- The messages in front may all be lost. -/
theorem skip (front : List α) (delivered : Delivered sent got) : Delivered (front ++ sent) got := by
  induction front with
  | nil => exact delivered
  | cons a front ih => exact .next ih

theorem of_nil (delivered : Delivered [] got) : got = [] := by
  cases delivered
  rfl

/-- Nothing comes out that was not put in. -/
theorem subset (delivered : Delivered sent got) : got ⊆ sent := by
  induction delivered with
  | nil => exact fun _ mem => mem
  | next _ ih => exact fun _ mem => List.mem_cons_of_mem _ (ih mem)
  | out _ ih =>
    intro b mem
    rcases List.mem_cons.mp mem with rfl | mem
    · exact List.mem_cons_self
    · exact ih mem

theorem append_inv (delivered : Delivered (sent ++ sent') got) :
    ∃ got₁ got₂, got = got₁ ++ got₂ ∧ Delivered sent got₁ ∧ Delivered sent' got₂ := by
  generalize whole : sent ++ sent' = all at delivered
  induction delivered generalizing sent with
  | nil =>
    obtain ⟨rfl, rfl⟩ := List.append_eq_nil_iff.mp whole
    exact ⟨[], [], rfl, .nil, .nil⟩
  | @next a all got rest ih =>
    cases sent with
    | nil =>
      obtain rfl : sent' = a :: all := whole
      exact ⟨[], got, rfl, .nil, .next rest⟩
    | cons b sent =>
      obtain ⟨rfl, rfl⟩ := List.cons.inj whole
      obtain ⟨got₁, got₂, rfl, first, second⟩ := ih rfl
      exact ⟨got₁, got₂, rfl, .next first, second⟩
  | @out a all got rest ih =>
    cases sent with
    | nil =>
      obtain rfl : sent' = a :: all := whole
      exact ⟨[], a :: got, rfl, .nil, .out rest⟩
    | cons b sent =>
      obtain ⟨rfl, -⟩ := List.cons.inj whole
      obtain ⟨got₁, got₂, rfl, first, second⟩ := ih whole
      exact ⟨b :: got₁, got₂, rfl, .out first, second⟩

theorem append {got' : List α} (first : Delivered sent got) (second : Delivered sent' got') :
    Delivered (sent ++ sent') (got ++ got') := by
  induction first with
  | nil => exact second
  | next _ ih => exact .next ih
  | out _ ih => exact .out ih

theorem flatten {parts gots : List (List α)} (arrive : List.Forall₂ Delivered parts gots) :
    Delivered parts.flatten gots.flatten := by
  induction arrive with
  | nil => exact .nil
  | cons first _ ih => exact first.append ih

/-- What comes out of a sequence of parts comes out of one part after the other. -/
theorem flatten_inv {parts : List (List α)} (delivered : Delivered parts.flatten got) :
    ∃ gots, List.Forall₂ Delivered parts gots ∧ got = gots.flatten := by
  induction parts generalizing got with
  | nil => exact ⟨[], .nil, delivered.of_nil⟩
  | cons part parts ih =>
    obtain ⟨got₁, got₂, rfl, first, second⟩ := append_inv delivered
    obtain ⟨gots, rest, rfl⟩ := ih second
    exact ⟨got₁ :: gots, .cons first rest, rfl⟩

end Delivered

end Channel
