import Downhill.Linear.Vec

/-! # Sums over lanes

What every sum of two scalars keeps, an inner product keeps. What a sum of two scalars has only if
both of them have it, an inner product has only if every term of it does.
-/

namespace Downhill

namespace Vec

variable {α : Type} [Scalar α] {P : α → Prop}

/-- Every lane has the property. -/
structure Lanes.All (P : α → Prop) (s : Lanes α) : Prop where
  a0 : P s.a0
  a1 : P s.a1
  a2 : P s.a2
  a3 : P s.a3
  a4 : P s.a4
  a5 : P s.a5
  a6 : P s.a6
  a7 : P s.a7

section Operands

variable (hadd : ∀ a b, P (a + b) → P a ∧ P b)

include hadd

theorem of_foldl_add {total : α} {ps : List α} (h : P (ps.foldl (fun r p => r + p) total)) :
    P total ∧ ∀ p ∈ ps, P p := by
  induction ps generalizing total with
  | nil => exact ⟨h, by simp⟩
  | cons p ps ih =>
      obtain ⟨hsum, hrest⟩ := ih h
      obtain ⟨htotal, hp⟩ := hadd _ _ hsum
      exact ⟨htotal, List.forall_mem_cons.mpr ⟨hp, hrest⟩⟩

theorem Lanes.All.of_total {s : Lanes α} (h : P s.total) : s.All P := by
  obtain ⟨h012, h37⟩ := hadd _ _ h
  obtain ⟨h01, h26⟩ := hadd _ _ h012
  obtain ⟨h0, h15⟩ := hadd _ _ h01
  obtain ⟨-, h04⟩ := hadd _ _ h0
  exact {
    a0 := (hadd _ _ h04).1
    a1 := (hadd _ _ h15).1
    a2 := (hadd _ _ h26).1
    a3 := (hadd _ _ h37).1
    a4 := (hadd _ _ h04).2
    a5 := (hadd _ _ h15).2
    a6 := (hadd _ _ h26).2
    a7 := (hadd _ _ h37).2 }

/-- What a sum has only if its operands have it, it has only if all terms have it. -/
theorem of_sumLanes {s : Lanes α} {ps : List α} (h : P (sumLanes s ps)) :
    s.All P ∧ ∀ p ∈ ps, P p := by
  fun_induction sumLanes s ps with
  | case1 s p0 p1 p2 p3 p4 p5 p6 p7 rest ih =>
      obtain ⟨hlanes, hrest⟩ := ih h
      have h0 := hadd _ _ hlanes.a0
      have h1 := hadd _ _ hlanes.a1
      have h2 := hadd _ _ hlanes.a2
      have h3 := hadd _ _ hlanes.a3
      have h4 := hadd _ _ hlanes.a4
      have h5 := hadd _ _ hlanes.a5
      have h6 := hadd _ _ hlanes.a6
      have h7 := hadd _ _ hlanes.a7
      refine ⟨⟨h0.1, h1.1, h2.1, h3.1, h4.1, h5.1, h6.1, h7.1⟩, ?_⟩
      simp only [List.forall_mem_cons]
      exact ⟨h0.2, h1.2, h2.2, h3.2, h4.2, h5.2, h6.2, h7.2, hrest⟩
  | case2 s ps =>
      obtain ⟨htotal, hps⟩ := of_foldl_add hadd h
      exact ⟨.of_total hadd htotal, hps⟩

end Operands

section Sum

variable (hadd : ∀ a b, P a → P b → P (a + b))

include hadd

theorem foldl_add_of {total : α} {ps : List α} (h : P total) (hps : ∀ p ∈ ps, P p) :
    P (ps.foldl (fun r p => r + p) total) := by
  induction ps generalizing total with
  | nil => exact h
  | cons p ps ih =>
      obtain ⟨hp, hrest⟩ := List.forall_mem_cons.mp hps
      exact ih (hadd _ _ h hp) hrest

/-- What zero has and every sum of two keeps, a sum has if all terms have it. -/
theorem sumLanes_of (hzero : P 0.0) {s : Lanes α} {ps : List α} (h : s.All P)
    (hps : ∀ p ∈ ps, P p) : P (sumLanes s ps) := by
  fun_induction sumLanes s ps with
  | case1 s p0 p1 p2 p3 p4 p5 p6 p7 rest ih =>
      simp only [List.forall_mem_cons] at hps
      obtain ⟨h0, h1, h2, h3, h4, h5, h6, h7, hrest⟩ := hps
      exact ih ⟨hadd _ _ h.a0 h0, hadd _ _ h.a1 h1, hadd _ _ h.a2 h2, hadd _ _ h.a3 h3,
        hadd _ _ h.a4 h4, hadd _ _ h.a5 h5, hadd _ _ h.a6 h6, hadd _ _ h.a7 h7⟩ hrest
  | case2 s ps =>
      have h04 := hadd _ _ hzero (hadd _ _ h.a0 h.a4)
      have h15 := hadd _ _ h04 (hadd _ _ h.a1 h.a5)
      have h26 := hadd _ _ h15 (hadd _ _ h.a2 h.a6)
      exact foldl_add_of hadd (hadd _ _ h26 (hadd _ _ h.a3 h.a7)) hps

end Sum

theorem mem_zipWith_self {x : Vec α} {a : α} (h : a ∈ x) :
    a * a ∈ List.zipWith (fun a b => a * b) x x := by
  rw [List.zipWith_self]
  exact List.mem_map_of_mem h

theorem normSq_of (hadd : ∀ a b, P a → P b → P (a + b)) (hzero : P 0.0) {x : Vec α}
    (h : ∀ a ∈ x, P (a * a)) : P x.normSq := by
  refine sumLanes_of hadd hzero ⟨hzero, hzero, hzero, hzero, hzero, hzero, hzero, hzero⟩ ?_
  simpa [List.zipWith_self] using h

theorem of_normSq (hadd : ∀ a b, P (a + b) → P a ∧ P b) {x : Vec α} (h : P x.normSq) {a : α}
    (ha : a ∈ x) : P (a * a) :=
  (of_sumLanes hadd h).2 _ (mem_zipWith_self ha)

end Vec

end Downhill
