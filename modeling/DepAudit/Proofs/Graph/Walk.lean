import Mathlib.Data.List.Chain
import Mathlib.Data.Set.Finite.Basic
import Mathlib.Logic.Relation
import Mathlib.Order.Bounds.Basic

/-! Walks along a relation, as lists of the places they pass: closed walks, simple cycles and the numbers
of steps of the walks to a place. Where a walk may end in a finite set of places only, having no closed
walk on the way means that every walk to a place has a first step. -/
namespace DepAudit
open Relation

variable {α : Type} {R : α → α → Prop}

structure WalkTo (R : α → α → Prop) (walk : List α) (last : α) : Prop where
  linked : walk.IsChain R
  ends : walk.getLast? = some last

structure ClosedWalk (R : α → α → Prop) (walk : List α) : Prop where
  linked : walk.IsChain R
  size : 2 ≤ walk.length
  closed : walk.head? = walk.getLast?

/-- A closed walk without its last place, in which no place occurs twice. -/
structure SimpleCycle (R : α → α → Prop) (cycle : List α) : Prop where
  nonempty : cycle ≠ []
  distinct : cycle.Nodup
  linked : cycle.IsChain R
  closing : ∀ last ∈ cycle.getLast?, ∀ first ∈ cycle.head?, R last first

def walkLengths (R : α → α → Prop) (last : α) : Set Nat :=
  {n | ∃ walk, WalkTo R walk last ∧ walk.length = n + 1}

theorem chain_before {front back : List α} {place : α} (linked : (front ++ place :: back).IsChain R) :
    (∀ before ∈ front, TransGen R before place) ∧ ∀ after ∈ back, TransGen R place after := by
  have ordered : (front ++ place :: back).Pairwise (TransGen R) :=
    (linked.imp fun _ _ => TransGen.single).pairwise
  obtain ⟨_,later,across⟩ := List.pairwise_append.mp ordered
  exact ⟨fun before member => across before member place (by simp),(List.pairwise_cons.mp later).1⟩

theorem WalkTo.concat {walk : List α} {last next : α} (walks : WalkTo R walk last) (step : R last next) :
    WalkTo R (walk ++ [next]) next := by
  refine ⟨walks.linked.append (.singleton next) ?_,List.getLast?_concat ..⟩
  intro place atEnd other same
  cases Option.some.inj same
  cases Option.some.inj (walks.ends.symm.trans atEnd)
  exact step

theorem WalkTo.reaches {walk : List α} {last place : α} (walks : WalkTo R walk last)
    (member : place ∈ walk) : ReflTransGen R place last := by
  obtain ⟨front,back,rfl⟩ := List.append_of_mem member
  cases back with
  | nil =>
    have same : place = last := by simpa using walks.ends
    exact same ▸ .refl
  | cons next back =>
    have inside : last ∈ next :: back := by
      have ends := walks.ends
      rw [List.getLast?_append_cons,List.getLast?_cons_cons] at ends
      exact List.mem_of_getLast? ends
    exact ((chain_before walks.linked).2 last inside).to_reflTransGen

theorem ClosedWalk.returns {walk : List α} {place : α} (closed : ClosedWalk R walk)
    (member : place ∈ walk) : TransGen R place place := by
  obtain ⟨front,back,rfl⟩ := List.append_of_mem member
  obtain ⟨before,after⟩ := chain_before closed.linked
  have size := closed.size
  have ends := closed.closed
  cases front with
  | nil =>
    cases back with
    | nil => simp at size
    | cons next back =>
      have inside : place ∈ next :: back := by
        rw [List.nil_append,List.head?_cons,List.getLast?_cons_cons] at ends
        exact List.mem_of_getLast? ends.symm
      exact after place inside
  | cons first front =>
    cases back with
    | nil =>
      rw [List.getLast?_concat] at ends
      exact Option.some.inj ends ▸ before first (by simp)
    | cons next back =>
      have inside : first ∈ next :: back := by
        rw [List.getLast?_append_cons,List.getLast?_cons_cons] at ends
        exact List.mem_of_getLast? ends.symm
      exact (after first inside).trans (before first (by simp))

theorem exists_walk {first last : α} (reaches : ReflTransGen R first last) :
    ∃ walk, WalkTo R (first :: walk) last := by
  obtain ⟨walk,linked,ends⟩ := List.exists_isChain_cons_of_relationReflTransGen reaches
  exact ⟨walk,linked,by rw [List.getLast?_eq_some_getLast (by simp),ends]⟩

theorem exists_closedWalk {place : α} (loop : TransGen R place place) :
    ∃ walk, ClosedWalk R walk ∧ place ∈ walk := by
  obtain ⟨next,step,back⟩ := TransGen.head'_iff.mp loop
  obtain ⟨walk,linked,ends⟩ := exists_walk back
  exact ⟨place :: next :: walk,⟨.cons_cons step linked,by simp,by rw [List.getLast?_cons_cons,ends]; rfl⟩,
    by simp⟩

theorem SimpleCycle.closedWalk {cycle : List α} (simple : SimpleCycle R cycle) :
    ∃ first ∈ cycle, ClosedWalk R (cycle ++ [first]) := by
  obtain ⟨first,rest,rfl⟩ := List.exists_cons_of_ne_nil simple.nonempty
  refine ⟨first,by simp,simple.linked.append (.singleton first) ?_,by simp,?_⟩
  · intro last atEnd next same
    cases Option.some.inj same
    exact simple.closing last atEnd first (by simp)
  · rw [List.getLast?_concat]
    rfl

theorem mem_walkLengths {last : α} {n : Nat} :
    n ∈ walkLengths R last ↔ n = 0 ∨ ∃ before, R before last ∧ ∃ k ∈ walkLengths R before, n = k + 1 := by
  constructor
  · rintro ⟨walk,walks,size⟩
    obtain rfl | ⟨walk,place,rfl⟩ := List.eq_nil_or_concat walk
    · simp at size
    · have same : place = last := by simpa using walks.ends
      subst same
      simp only [List.concat_eq_append,List.length_append,List.length_singleton] at size
      obtain rfl | ⟨walk,before,rfl⟩ := List.eq_nil_or_concat walk
      · exact .inl (by simpa using size.symm)
      · have linked := walks.linked
        rw [List.concat_eq_append,List.concat_eq_append,List.isChain_append] at linked
        refine .inr ⟨before,linked.2.2 before (by simp) place rfl,walk.length,?_,?_⟩
        · exact ⟨walk ++ [before],⟨linked.1,List.getLast?_concat ..⟩,by simp⟩
        · simp only [List.concat_eq_append,List.length_append,List.length_singleton] at size
          omega
  · rintro (rfl | ⟨before,step,k,⟨walk,walks,size⟩,rfl⟩)
    · exact ⟨[last],⟨.singleton last,rfl⟩,rfl⟩
    · refine ⟨walk ++ [last],walks.concat step,?_⟩
      rw [List.length_append,size,List.length_singleton]

theorem isGreatest_walkLengths {last : α} {depth : Nat}
    (all : ∀ before, R before last → ∃ k, IsGreatest (walkLengths R before) k ∧ k < depth)
    (top : depth = 0 ∨ ∃ before, R before last ∧ ∃ k, IsGreatest (walkLengths R before) k ∧ depth = k + 1) :
    IsGreatest (walkLengths R last) depth := by
  constructor
  · rw [mem_walkLengths]
    rcases top with zero | ⟨before,step,k,greatest,succ⟩
    · exact .inl zero
    · exact .inr ⟨before,step,k,greatest.1,succ⟩
  · intro n member
    rcases mem_walkLengths.mp member with zero | ⟨before,step,n,shorter,rfl⟩
    · exact zero ▸ Nat.zero_le depth
    · obtain ⟨k,greatest,less⟩ := all before step
      have bound : n ≤ k := greatest.2 shorter
      omega

theorem not_loop_of_acc {place : α} (ends : Acc R place) : ¬TransGen R place place := by
  have closure : Acc (TransGen R) place := ends.transGen
  induction closure with
  | intro place _ ih => exact fun loop => ih place loop ends loop

theorem acc_of_reaches {first last : α} (ends : Acc R last) (reaches : ReflTransGen R first last) :
    Acc R first := by
  induction reaches using ReflTransGen.head_induction_on with
  | refl => exact ends
  | head step _ ih => exact ih.inv step

/-- Backward walks among finitely many places end, unless they come by a closed walk. -/
theorem acc_of_no_loop (places : List α) (inside : ∀ before after, R before after → before ∈ places)
    {last : α} (acyclic : ∀ place, ReflTransGen R place last → ¬TransGen R place place) : Acc R last := by
  let Upstream := {place // place ∈ places ∧ ReflTransGen R place last}
  let before : Upstream → Upstream → Prop := fun a b => TransGen R a.1 b.1
  have finite : Finite Upstream :=
    (places.finite_toSet.subset fun _ upstream => upstream.1).to_subtype
  have trans : IsTrans Upstream before := ⟨fun _ _ _ => TransGen.trans⟩
  have irrefl : Std.Irrefl before := ⟨fun place loop => acyclic place.1 place.2.2 loop⟩
  have founded : WellFounded before := Finite.wellFounded_of_trans_of_irrefl before
  have upstream (place : Upstream) : Acc R place.1 := by
    induction place using founded.induction with
    | _ place ih =>
      refine ⟨_,fun earlier step => ?_⟩
      exact ih ⟨earlier,inside _ _ step,.head step place.2.2⟩ (.single step)
  exact ⟨_,fun earlier step => upstream ⟨earlier,inside _ _ step,.single step⟩⟩

theorem acc_iff_no_loop (places : List α) (inside : ∀ before after, R before after → before ∈ places)
    {last : α} : Acc R last ↔ ∀ place, ReflTransGen R place last → ¬TransGen R place place :=
  ⟨fun ends _ reaches => not_loop_of_acc (acc_of_reaches ends reaches),acc_of_no_loop places inside⟩

/-- Where walks from a place end, one of them ends at a place without steps. -/
theorem exists_last {place : α} (ends : Acc (fun after before => R before after) place) :
    ∃ last, ReflTransGen R place last ∧ ∀ next, ¬R last next := by
  induction ends with
  | intro place _ ih =>
    by_cases onward : ∃ next, R place next
    · obtain ⟨next,step⟩ := onward
      obtain ⟨last,reaches,final⟩ := ih next step
      exact ⟨last,.head step reaches,final⟩
    · exact ⟨place,.refl,not_exists.mp onward⟩

theorem WalkTo.nodup {walk : List α} {last : α} (walks : WalkTo R walk last) (ends : Acc R last) :
    walk.Nodup := by
  have ordered : walk.Pairwise (TransGen R) := (walks.linked.imp fun _ _ => TransGen.single).pairwise
  refine ordered.imp_of_mem fun {place next} member _ step same => ?_
  exact not_loop_of_acc (acc_of_reaches ends (walks.reaches member)) (same ▸ step)

end DepAudit
