import Mathlib.Data.List.Forall2

/-! Computations that may fail, taken apart by how they end. -/
namespace DepAudit

variable {ε δ α β : Type}

theorem bind_eq_ok {x : Except ε α} {f : α → Except ε β} {b : β} :
    (x >>= f) = .ok b ↔ ∃ a, x = .ok a ∧ f a = .ok b := by
  constructor
  · intro bound
    cases x with
    | error e => cases bound
    | ok a => exact ⟨a,rfl,bound⟩
  · rintro ⟨a,rfl,last⟩
    exact last

theorem mapError_eq_ok {x : Except ε α} {f : ε → δ} {a : α} : x.mapError f = .ok a ↔ x = .ok a := by
  cases x with
  | error e => exact ⟨nofun,nofun⟩
  | ok b => exact ⟨fun same => congrArg _ (Except.ok.inj same),fun same => congrArg _ (Except.ok.inj same)⟩

theorem map_eq_ok {x : Except ε α} {f : α → β} {b : β} : x.map f = .ok b ↔ ∃ a, x = .ok a ∧ f a = b := by
  cases x with
  | error e => exact ⟨nofun,nofun⟩
  | ok a =>
    refine ⟨fun same => ⟨a,rfl,Except.ok.inj same⟩,?_⟩
    rintro ⟨_,same,rfl⟩
    exact Except.ok.inj same ▸ rfl

theorem mapError_eq_error {x : Except ε α} {f : ε → δ} {e : δ} :
    x.mapError f = .error e ↔ ∃ reason, x = .error reason ∧ f reason = e := by
  cases x with
  | error reason =>
    refine ⟨fun same => ⟨reason,rfl,Except.error.inj same⟩,?_⟩
    rintro ⟨_,same,rfl⟩
    exact Except.error.inj same ▸ rfl
  | ok a => exact ⟨nofun,nofun⟩

theorem map_eq_error {x : Except ε α} {f : α → β} {e : ε} : x.map f = .error e ↔ x = .error e := by
  cases x with
  | error reason =>
    exact ⟨fun same => congrArg _ (Except.error.inj same),
      fun same => congrArg _ (Except.error.inj same)⟩
  | ok a => exact ⟨nofun,nofun⟩

theorem bind_eq_error {x : Except ε α} {f : α → Except ε β} {e : ε} :
    (x >>= f) = .error e ↔ x = .error e ∨ ∃ a, x = .ok a ∧ f a = .error e := by
  cases x with
  | error reason =>
    refine ⟨fun ended => .inl (congrArg _ (Except.error.inj ended)),?_⟩
    rintro (same | ⟨_,came,_⟩)
    · exact congrArg _ (Except.error.inj same)
    · cases came
  | ok a =>
    refine ⟨fun ended => .inr ⟨a,rfl,ended⟩,?_⟩
    rintro (same | ⟨_,came,last⟩)
    · cases same
    · exact Except.ok.inj came ▸ last

theorem toOption_eq_some {x : Except ε α} {a : α} : x.toOption = some a ↔ x = .ok a := by
  cases x with
  | error e => exact ⟨nofun,nofun⟩
  | ok b => exact ⟨fun same => congrArg _ (Option.some.inj same),fun same => congrArg _ (Except.ok.inj same)⟩

theorem toOption_eq_none {x : Except ε α} : x.toOption = none ↔ ∀ a, x ≠ .ok a := by
  cases x with
  | error e => exact ⟨fun _ => nofun,fun _ => rfl⟩
  | ok a => exact ⟨nofun,fun none => absurd rfl (none a)⟩

theorem toOption_map (x : Except ε α) (f : α → β) : (x.map f).toOption = x.toOption.map f := by
  cases x <;> rfl

theorem exists_eq_ok {x : Except ε α} (ends : x.toOption.isSome = true) : ∃ a, x = .ok a := by
  cases x with
  | error e => cases ends
  | ok a => exact ⟨a,rfl⟩

theorem forM_eq_ok {f : α → Except ε Unit} {xs : List α} :
    xs.forM f = .ok () ↔ ∀ x ∈ xs, f x = .ok () := by
  induction xs with
  | nil => exact ⟨fun _ => nofun,fun _ => rfl⟩
  | cons x xs ih =>
    rw [List.forall_mem_cons,← ih]
    exact bind_eq_ok.trans ⟨fun ⟨_,first,others⟩ => ⟨first,others⟩,fun ⟨first,others⟩ => ⟨(),first,others⟩⟩

theorem exists_of_forall₂ {R : α → β → Prop} {xs : List α} {ys : List β} (all : List.Forall₂ R xs ys)
    {y : β} (member : y ∈ ys) : ∃ x ∈ xs, R x y := by
  induction all with
  | nil => cases member
  | cons first _ ih =>
    rcases List.mem_cons.mp member with rfl | later
    · exact ⟨_,List.mem_cons_self ..,first⟩
    · obtain ⟨x,inside,related⟩ := ih later
      exact ⟨x,.tail _ inside,related⟩

theorem exists_forall₂ {R : α → β → Prop} {xs : List α} (each : ∀ x ∈ xs, ∃ y, R x y) :
    ∃ ys, List.Forall₂ R xs ys := by
  induction xs with
  | nil => exact ⟨[],.nil⟩
  | cons x xs ih =>
    obtain ⟨⟨y,first⟩,others⟩ := List.forall_mem_cons.mp each
    obtain ⟨ys,later⟩ := ih others
    exact ⟨y :: ys,.cons first later⟩

theorem mapM_eq_ok {f : α → Except ε β} {xs : List α} {ys : List β} :
    xs.mapM f = .ok ys ↔ List.Forall₂ (fun x y => f x = .ok y) xs ys := by
  induction xs generalizing ys with
  | nil =>
    rw [List.forall₂_nil_left_iff]
    exact ⟨fun same => (Except.ok.inj same).symm,fun none => none ▸ rfl⟩
  | cons x xs ih =>
    rw [List.mapM_cons,bind_eq_ok,List.forall₂_cons_left_iff]
    constructor
    · rintro ⟨y,first,later⟩
      obtain ⟨rest,mapped,same⟩ := bind_eq_ok.mp later
      exact ⟨y,rest,first,ih.mp mapped,(Except.ok.inj same).symm⟩
    · rintro ⟨y,rest,first,related,rfl⟩
      exact ⟨y,first,bind_eq_ok.mpr ⟨rest,ih.mpr related,rfl⟩⟩

/-- The first failure ends it all. -/
theorem mapM_eq_error {f : α → Except ε β} {front back : List α} {x : α} {ys : List β} {e : ε}
    (before : List.Forall₂ (fun x y => f x = .ok y) front ys) (ended : f x = .error e) :
    (front ++ x :: back).mapM f = .error e := by
  induction before with
  | nil =>
    rw [List.nil_append,List.mapM_cons]
    exact bind_eq_error.mpr (.inl ended)
  | cons first _ ih =>
    rw [List.cons_append,List.mapM_cons]
    exact bind_eq_error.mpr (.inr ⟨_,first,bind_eq_error.mpr (.inl ih)⟩)

theorem exists_mapM_eq_ok {f : α → Except ε β} {xs : List α} :
    (∃ ys, xs.mapM f = .ok ys) ↔ ∀ x ∈ xs, ∃ y, f x = .ok y := by
  constructor
  · rintro ⟨ys,mapped⟩ x member
    obtain ⟨y,-,here⟩ := exists_of_forall₂ (mapM_eq_ok.mp mapped).flip member
    exact ⟨y,here⟩
  · intro each
    obtain ⟨ys,all⟩ := exists_forall₂ each
    exact ⟨ys,mapM_eq_ok.mpr all⟩

theorem forall₂_ok_congr {f g : α → Except ε β} {xs : List α} {ys : List β}
    (same : ∀ x ∈ xs, g x = f x) (all : List.Forall₂ (fun x y => f x = .ok y) xs ys) :
    List.Forall₂ (fun x y => g x = .ok y) xs ys := by
  induction all with
  | nil => exact .nil
  | cons first _ ih =>
    obtain ⟨here,later⟩ := List.forall_mem_cons.mp same
    exact .cons (here.trans first) (ih later)

theorem mapM_eq_ok_map {f : α → Except ε β} {p : α → Prop} {g : α → β}
    (each : ∀ x y, f x = .ok y ↔ p x ∧ y = g x) {xs : List α} {ys : List β} :
    xs.mapM f = .ok ys ↔ (∀ x ∈ xs, p x) ∧ ys = xs.map g := by
  rw [mapM_eq_ok]
  induction xs generalizing ys with
  | nil => simp
  | cons x xs ih =>
    rw [List.forall₂_cons_left_iff,List.forall_mem_cons,List.map_cons]
    constructor
    · rintro ⟨y,rest,first,later,rfl⟩
      obtain ⟨fits,rfl⟩ := (each x y).mp first
      obtain ⟨fit,rfl⟩ := ih.mp later
      exact ⟨⟨fits,fit⟩,rfl⟩
    · rintro ⟨⟨fits,fit⟩,rfl⟩
      exact ⟨_,_,(each x _).mpr ⟨fits,rfl⟩,ih.mpr ⟨fit,rfl⟩,rfl⟩

def isYes : Except ε Bool → Bool
  | .ok b => b
  | .error _ => false

private theorem filterAuxM_eq_ok {p : α → Except ε Bool} {xs before ys : List α} :
    xs.filterAuxM p before = .ok ys ↔
      (∀ x ∈ xs, ∃ b, p x = .ok b) ∧ ys = (xs.filter fun x => isYes (p x)).reverse ++ before := by
  induction xs generalizing before with
  | nil => exact ⟨fun same => ⟨nofun,(Except.ok.inj same).symm⟩,fun ⟨_,same⟩ => same ▸ rfl⟩
  | cons x xs ih =>
    rw [List.filterAuxM,bind_eq_ok,List.forall_mem_cons]
    constructor
    · rintro ⟨b,first,later⟩
      obtain ⟨decided,rfl⟩ := ih.mp later
      refine ⟨⟨⟨b,first⟩,decided⟩,?_⟩
      rw [List.filter_cons,first]
      cases b <;> simp [isYes]
    · rintro ⟨⟨⟨b,first⟩,decided⟩,rfl⟩
      refine ⟨b,first,ih.mpr ⟨decided,?_⟩⟩
      rw [List.filter_cons,first]
      cases b <;> simp [isYes]

/-- A filter comes to its end when its test can be decided everywhere. -/
theorem filterM_eq_ok {p : α → Except ε Bool} {xs ys : List α} :
    xs.filterM p = .ok ys ↔ (∀ x ∈ xs, ∃ b, p x = .ok b) ∧ ys = xs.filter fun x => isYes (p x) := by
  rw [List.filterM,bind_eq_ok]
  constructor
  · rintro ⟨zs,found,same⟩
    obtain ⟨decided,rfl⟩ := filterAuxM_eq_ok.mp found
    refine ⟨decided,(Except.ok.inj same).symm.trans ?_⟩
    rw [List.append_nil,List.reverse_reverse]
  · rintro ⟨decided,rfl⟩
    refine ⟨_,filterAuxM_eq_ok.mpr ⟨decided,rfl⟩,congrArg Except.ok ?_⟩
    rw [List.append_nil,List.reverse_reverse]

end DepAudit
