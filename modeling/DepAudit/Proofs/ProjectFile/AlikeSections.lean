import DepAudit.Proofs.ProjectFile.Alike
import DepAudit.Proofs.ProjectFile.Headings

/-! Sections of alike texts: they have the same ids in the same order, and alike bodies. So what a project
file declares does not depend on what its comments say. -/
namespace DepAudit.ProjectFile
open Text Layout

variable {place : Place} {xs ys : List Char}

/-! The kind of a section. -/

theorem Alike.rel_kindEnd? (same : Alike xs ys) (wanted : Phrase isIdentifier) :
    Option.Rel Alike (kindEnd? wanted.chars xs) (kindEnd? wanted.chars ys) := by
  obtain ⟨_,same⟩ := same
  refine rel_bind (same.rel_after? wanted.chars (plain_of_identifier wanted)) fun rest => ?_
  obtain ⟨_,rest⟩ := rest.skipBlanks
  exact rel_imp AlikeFrom.alike (rest.rel_after? [';'] (by decide))

theorem AlikeFrom.rel_afterBlanks? {p : List Char → Option (List Char)}
    (reads : ∀ {xs ys}, Alike xs ys → Option.Rel Alike (p xs) (p ys))
    (same : AlikeFrom place xs ys) : Option.Rel Alike (afterBlanks? p xs) (afterBlanks? p ys) := by
  induction same with
  | nil place => exact reads ⟨place,.nil place⟩
  | @char place c xs ys quoteless slashless rest ih =>
    have here := reads ⟨place,.char quoteless slashless rest⟩
    rw [afterBlanks?,afterBlanks?]
    split
    · exact rel_or ih here
    · exact here
  | @quoted place xs ys word rest ih => exact reads ⟨place,.quoted word rest⟩
  | comment one other rest ih => exact reads ⟨.loose,.comment one other rest⟩

theorem Alike.rel_isaLine? (same : Alike xs ys) (wanted : Phrase isIdentifier)
    (before : Option Char) :
    Option.Rel Alike (isaLine? wanted.chars before xs) (isaLine? wanted.chars before ys) := by
  obtain ⟨_,same⟩ := same
  rw [isaLine?,isaLine?]
  cases startsWord before with
  | false => exact .none
  | true =>
    refine rel_bind (R := fun _ _ => True) (.some trivial) fun _ => ?_
    refine rel_bind (same.rel_after? "isa".toList (by decide)) fun rest => ?_
    obtain ⟨_,rest⟩ := rest.skipBlanks
    exact rel_bind rest.rel_sign fun rest => rest.rel_afterBlanks? fun same => same.rel_kindEnd? wanted

theorem isaLine?_none_of_unassigned (wanted : List Char) (before : Option Char) (cs : List Char)
    (unassigned : assigned? before cs = none) : isaLine? wanted before cs = none :=
  isaLine?_none_of_unkeyed _ _ _ (keyed?_none_of_unassigned isaKey before cs unassigned)

theorem AlikeFrom.rel_isaAhead? (same : AlikeFrom place xs ys) (wanted : Phrase isIdentifier)
    (before : Option Char) :
    Option.Rel Alike (isaAhead? wanted.chars before xs) (isaAhead? wanted.chars before ys) := by
  induction same generalizing before with
  | nil => exact .none
  | @char place c xs ys quoteless slashless rest ih =>
    have here := Alike.rel_isaLine? ⟨place,.char quoteless slashless rest⟩ wanted before
    rw [isaAhead?,isaAhead?]
    generalize isaLine? wanted.chars before (c :: xs) = one at here ⊢
    generalize isaLine? wanted.chars before (c :: ys) = two at here ⊢
    cases here with
    | none =>
      dsimp only
      split
      · exact .none
      · exact ih _
    | some rest => exact .some rest
  | quoted word rest ih =>
    have silent := (silent_quoted word).mono (isaLine?_none_of_unassigned wanted.chars)
    have braceless := (Value.quoted word).unbraced.braceless
    rw [isaAhead?_of_misses (silent _ _) braceless,isaAhead?_of_misses (silent _ _) braceless]
    exact ih _
  | comment one other rest ih =>
    have passed : ∀ (c : Comment) back, isaAhead? wanted.chars before (c.chars ++ back) =
        isaAhead? wanted.chars (some '/') back := fun c back => by
      rw [isaAhead?_of_misses (c.silent.mono (isaLine?_none_of_unassigned _) _ _) c.unbraced.braceless,
        c.behind_chars]
    rw [passed,passed]
    exact ih _

/-! Headers. -/

def OpenedAlike (xs ys : List Char) : Prop :=
  ∃ one other, xs = '\x7b' :: one ∧ ys = '\x7b' :: other ∧ Alike one other

structure HeadersAlike (h k : Header) : Prop where
  id : h.id = k.id
  group : OpenedAlike h.group k.group

theorem Alike.rel_opened? (same : Alike xs ys) (wanted : Phrase isIdentifier) :
    Option.Rel (fun r s => OpenedAlike r.1 s.1 ∧ Alike r.2 s.2)
      (opened? wanted.chars xs) (opened? wanted.chars ys) := by
  obtain ⟨_,same⟩ := same.skipGap
  refine rel_bind same.rel_sign fun {group other} rest => ?_
  obtain ⟨_,rest⟩ := rest.skipBlanks
  have inside := rest.rel_after? ['\x7b'] (by decide)
  cases one : after? ['\x7b'] (Text.skipBlanks group) <;>
    cases two : after? ['\x7b'] (Text.skipBlanks other) <;> rw [one,two] at inside
  · exact .none
  · cases inside
  · cases inside
  · cases inside with
    | some inside =>
      exact rel_map (inside.rel_isaAhead? wanted _) fun rest =>
        ⟨⟨_,_,after?_eq_some.mp one,after?_eq_some.mp two,inside.alike⟩,rest⟩

theorem Alike.rel_header? (same : Alike xs ys) (wanted : Phrase isIdentifier)
    (before : Option Char) :
    Option.Rel (fun r s => HeadersAlike r.1 s.1 ∧ Alike r.2 s.2)
      (header? wanted.chars before xs) (header? wanted.chars before ys) := by
  obtain ⟨_,same⟩ := same
  have word := same.takeWhile_eq (p := isWord) (by decide) (by decide)
  have rest := (same.dropWhile (p := isWord) (by decide) (by decide)).alike
  rw [header?_eq,header?_eq,word]
  split
  · exact rel_map (rest.rel_opened? wanted) fun related => ⟨⟨rfl,related.1⟩,related.2⟩
  · exact .none

/-- The search for headers finds alike headers in alike texts. -/
theorem AlikeFrom.forall₂_headers (same : AlikeFrom place xs ys) (wanted : Phrase isIdentifier)
    (before : Option Char) :
    List.Forall₂ HeadersAlike (allFrom (header? wanted.chars) before 0 xs)
      (allFrom (header? wanted.chars) before 0 ys) := by
  -- On the length of the text: behind a header the search goes on with what the header leaves.
  induction bound : xs.length using Nat.strong_induction_on generalizing place xs ys before with
  | _ n ih =>
    subst bound
    cases same with
    | nil => exact .nil
    | @char _ c xs ys quoteless slashless rest =>
      have here := Alike.rel_header? ⟨place,.char quoteless slashless rest⟩ wanted before
      cases one : header? wanted.chars before (c :: xs) <;>
        cases two : header? wanted.chars before (c :: ys) <;> rw [one,two] at here
      · rw [allFrom,allFrom,one,two]
        exact ih _ (Nat.lt_succ_self _) rest _ rfl
      · cases here
      · cases here
      · rename_i reading reading'
        obtain ⟨h,left⟩ := reading
        obtain ⟨k,left'⟩ := reading'
        cases here with
        | some here =>
          obtain ⟨headers,_,left⟩ := here
          have suffix := header?_rest one
          rw [allFrom_of_suffix one suffix,allFrom_of_suffix two (header?_rest two)]
          exact .cons headers (ih _ suffix.length_le left _ rfl)
    | @quoted _ xs ys word rest =>
      have silent := (silent_quoted word).mono (header?_none_of_unassigned wanted.chars)
      rw [allFrom_of_misses (silent _ _),allFrom_of_misses (silent _ _)]
      exact ih _ (by simp [Value.chars]; omega) rest _ rfl
    | @comment xs ys one other rest =>
      have passed : ∀ (c : Comment) back, allFrom (header? wanted.chars) before 0 (c.chars ++ back) =
          allFrom (header? wanted.chars) (some '/') 0 back := fun c back => by
        rw [allFrom_of_misses (c.silent.mono (header?_none_of_unassigned _) _ _),c.behind_chars]
      rw [passed,passed]
      exact ih _ (by simp [Comment.chars]; omega) rest _ rfl

/-! Bodies. -/

theorem AlikeFrom.rel_closingOffset (same : AlikeFrom place xs ys) (depth : Int) :
    Option.Rel (fun m n => AlikeFrom place (xs.take m) (ys.take n))
      (closingOffset depth .plain xs) (closingOffset depth .plain ys) := by
  induction same generalizing depth with
  | nil => exact .none
  | @char place c xs ys quoteless slashless rest ih =>
    have later : ∀ depth, Option.Rel (fun m n => AlikeFrom place ((c :: xs).take m) ((c :: ys).take n))
        ((closingOffset depth .plain xs).map (· + 1)) ((closingOffset depth .plain ys).map (· + 1)) :=
      fun depth => rel_map (ih depth) fun rest => .char quoteless slashless rest
    rw [closingOffset,closingOffset,if_neg quoteless,if_neg quoteless]
    split
    · exact later _
    · split
      · split
        · exact .some (.nil _)
        · exact later _
      · exact later _
  | quoted word rest ih =>
    have closing := (Value.quoted word).unbraced.closing
    rw [closing,closing]
    refine rel_map (ih depth) fun rest => ?_
    rw [Nat.add_comm,List.take_length_add_append,Nat.add_comm,List.take_length_add_append]
    exact .quoted word rest
  | comment one other rest ih =>
    rw [one.unbraced.closing,other.unbraced.closing]
    refine rel_map (ih depth) fun rest => ?_
    rw [Nat.add_comm,List.take_length_add_append,Nat.add_comm,List.take_length_add_append]
    exact .comment one other rest

def SectionsAlike (s t : String × String) : Prop := s.1 = t.1 ∧ Alike s.2.toList t.2.toList

theorem HeadersAlike.rel_entry? {h k : Header} (same : HeadersAlike h k) :
    Option.Rel SectionsAlike h.entry? k.entry? := by
  obtain ⟨id,one,other,group,group',_,inside⟩ := same
  rw [ Header.entry?,Header.entry?,group,group',groupBody?_brace,groupBody?_brace,id,Option.map_map,
    Option.map_map]
  refine rel_map (inside.rel_closingOffset 1) fun body => ⟨rfl,?_⟩
  rw [Function.comp_apply,Function.comp_apply,String.toList_ofList,String.toList_ofList]
  exact body.alike

/-! Tables. -/

theorem forall₂_set {t t' : Table String String} (same : List.Forall₂ SectionsAlike t t')
    {s s' : String × String} (pair : SectionsAlike s s') :
    List.Forall₂ SectionsAlike (t.set s.1 s.2) (t'.set s'.1 s'.2) := by
  obtain ⟨key,value⟩ := s
  obtain ⟨key',value'⟩ := s'
  obtain ⟨equal,bodies⟩ := pair
  obtain rfl : key = key' := equal
  induction same with
  | nil => exact .cons ⟨rfl,bodies⟩ .nil
  | @cons first first' t t' here rest ih =>
    obtain ⟨k,v⟩ := first
    obtain ⟨k',v'⟩ := first'
    obtain ⟨equal,others⟩ := here
    obtain rfl : k = k' := equal
    rw [Table.set,Table.set]
    split
    · exact .cons ⟨rfl,bodies⟩ rest
    · exact .cons ⟨rfl,others⟩ ih

/-- Behind a beginning that holds no header, alike texts have alike sections. -/
theorem AlikeFrom.forall₂_sections {front : List Char} (silent : Silent assigned? front)
    (same : AlikeFrom place xs ys) (wanted : Phrase isIdentifier) :
    List.Forall₂ SectionsAlike (sections (String.ofList (front ++ xs)) wanted.text)
      (sections (String.ofList (front ++ ys)) wanted.text) := by
  have passed : ∀ cs, all (header? wanted.chars) (front ++ cs) =
      allFrom (header? wanted.chars) (behind none front) 0 cs := fun cs =>
    allFrom_of_misses (silent.mono (header?_none_of_unassigned wanted.chars) none cs)
  have entries := List.rel_filterMap (fun _ _ headers => HeadersAlike.rel_entry? headers)
    (same.forall₂_headers wanted (behind none front))
  rw [sections,sections,String.toList_ofList,String.toList_ofList,
    show wanted.text.toList = wanted.chars from rfl,passed,passed]
  exact List.rel_foldl (R := SectionsAlike) (P := List.Forall₂ SectionsAlike)
    (fun _ _ tables _ _ pair => forall₂_set tables pair) .nil entries

/-! The whole file. -/

theorem map_eq_of_forall₂ {α β γ : Type} {R : α → β → Prop} {f : α → γ} {g : β → γ} {as : List α}
    {bs : List β} (related : List.Forall₂ R as bs) (same : ∀ {a b}, R a b → f a = g b) :
    as.map f = bs.map g := by
  rw [← List.forall₂_eq_eq_eq]
  exact List.rel_map (fun _ _ here => same here) related

theorem target?_eq {s t : String × String} (same : SectionsAlike s t)
    (references : Table String String) : target? references s.1 s.2 = target? references t.1 t.2 := by
  obtain ⟨id,bodies⟩ := same
  have value := fun key => value?_eq bodies key
  have list := fun key => ids_eq bodies key
  rw [target?,target?,id,value ⟨"name",by decide,by decide⟩,value ⟨"productName",by decide,by decide⟩,
    value ⟨"productType",by decide,by decide⟩,list ⟨"dependencies",by decide,by decide⟩,
    list ⟨"buildPhases",by decide,by decide⟩]

/-- Alike texts are read as the same targets. -/
theorem AlikeFrom.read_eq {front : List Char} (silent : Silent assigned? front)
    (same : AlikeFrom place xs ys) (wanted : Phrase isIdentifier) :
    read (String.ofList (front ++ xs)) wanted.text = read (String.ofList (front ++ ys)) wanted.text := by
  have targets := same.forall₂_sections silent wanted
  have others := same.forall₂_sections silent ⟨dependencyKind,by decide,by decide⟩
  have references : references (String.ofList (front ++ xs)) =
      references (String.ofList (front ++ ys)) := by
    have each := map_eq_of_forall₂ others (f := fun s => (value? s.2 "target").map (s.1,·))
      (g := fun s => (value? s.2 "target").map (s.1,·)) fun {s t} pair => by
        rw [pair.1,value?_eq pair.2 ⟨"target",by decide,by decide⟩]
    have kept := congrArg (List.filterMap id) each
    rwa [List.filterMap_map,List.filterMap_map] at kept
  have each := map_eq_of_forall₂ targets (f := fun s => target? (ProjectFile.references _) s.1 s.2)
    fun pair => target?_eq pair (ProjectFile.references (String.ofList (front ++ ys)))
  have kept := congrArg (List.filterMap id) each
  have counted := congrArg (List.countP Option.isNone) each
  rw [List.filterMap_map,List.filterMap_map] at kept
  rw [List.countP_map,List.countP_map] at counted
  rw [read,read,ofSections,ofSections,references,ProjectFile.mk.injEq]
  exact ⟨kept,targets.length_eq,counted⟩

end DepAudit.ProjectFile
