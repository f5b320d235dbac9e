import DepAudit.Proofs.ProjectFile.Headings

/-! Where sections come from. The headers of a text are found from left to right, each behind the one before; a section
is what the brace of a header and the brace that closes it have between them, and that is never the inside of another
header's brace. -/
namespace DepAudit.ProjectFile
open Text

/-- A header by index: where it starts, where its brace and the word `isa` stand, and where it stops. -/
@[ext]
structure HeaderSpan where
  id : String
  start : Nat
  brace : Nat
  isa : Nat
  stop : Nat

structure IsHeader (kind text : List Char) (m : HeaderSpan) : Prop where
  /-- The id is a whole word. -/
  word : ∀ c ∈ (text.take m.start).getLast?, isWord c = false
  heading : ∃ h : Heading, h.id.text = m.id ∧ text.extract m.start m.brace = h.chars
  opens : text[m.brace]? = some '\x7b'
  inside : m.brace < m.isa
  braceless : ∀ c ∈ text.extract (m.brace + 1) m.isa, c ≠ '\x7b' ∧ c ≠ '\x7d'
  /-- So is the key of the kind. -/
  key : ∀ c ∈ (text.take m.isa).getLast?, isWord c = false
  line : ∃ l : KindLine, text.extract m.isa m.stop = l.chars kind
  within : m.stop ≤ text.length

/-- The headers that start at an index or behind it, none in the text of another: each is the first that is left, with
the first line of its kind. -/
inductive Scans (kind text : List Char) : Nat → List HeaderSpan → Prop where
  | done {i : Nat} (none : ∀ m, IsHeader kind text m → m.start < i) : Scans kind text i []
  | next {i : Nat} {m : HeaderSpan} {rest : List HeaderSpan} (header : IsHeader kind text m) (later : i ≤ m.start)
      (first : ∀ n, IsHeader kind text n → i ≤ n.start →
        m.start < n.start ∨ m.start = n.start ∧ m.isa ≤ n.isa)
      (tail : Scans kind text m.stop rest) : Scans kind text i (m :: rest)

/-! Parts of a text by index. -/

section parts

variable {text piece rest : List Char} {i j : Nat}

theorem extract_eq_iff (ordered : i ≤ j) (within : j ≤ text.length) :
    text.extract i j = piece ↔ j = i + piece.length ∧ text.drop i = piece ++ text.drop j := by
  rw [List.extract_eq_take_drop]
  constructor
  · rintro rfl
    refine ⟨?_,?_⟩
    · rw [List.length_take,List.length_drop]
      omega
    · have rest : text.drop j = (text.drop i).drop (j - i) := by
        rw [List.drop_drop]
        congr 1
        omega
      rw [rest,List.take_append_drop]
  · rintro ⟨rfl,cut⟩
    rw [cut,Nat.add_sub_cancel_left,List.take_left]

theorem lt_of_extract (part : text.extract i j = piece) (filled : piece ≠ []) : i < j := by
  rw [List.extract_eq_take_drop] at part
  refine Nat.lt_of_not_le fun past => filled ?_
  rw [← part,Nat.sub_eq_zero_of_le past,List.take_zero]

theorem drop_inj (first : i ≤ text.length) (second : j ≤ text.length) (same : text.drop i = text.drop j) :
    i = j := by
  have size := congrArg List.length same
  rw [List.length_drop,List.length_drop] at size
  omega

theorem drop_add (cut : text.drop i = piece ++ rest) : text.drop (i + piece.length) = rest := by
  rw [← List.drop_drop,cut,List.drop_left]

theorem behind_take_add (before : Option Char) (cut : text.drop i = piece ++ rest) :
    behind before (text.take (i + piece.length)) = behind (behind before (text.take i)) piece := by
  rw [List.take_add,cut,List.take_left,behind_append]

theorem startsWord_behind {cs : List Char} :
    startsWord (behind none cs) = true ↔ ∀ c ∈ cs.getLast?, isWord c = false := by
  rw [startsWord,Bool.not_eq_true']
  exact ⟨apart_of_any_behind,any_behind rfl⟩

end parts

variable {kind text : List Char} {m n : HeaderSpan}

theorem KindLine.chars_ne_nil (l : KindLine) : l.chars kind ≠ [] := by
  simp [chars]

theorem Heading.chars_ne_nil (h : Heading) : h.chars ≠ [] := by
  have filled : h.id.chars ≠ [] := h.id.filled
  simp [chars,filled]

/-! Headers by index are the headers that are read. -/

namespace IsHeader

theorem brace_lt (header : IsHeader kind text m) : m.brace < text.length :=
  (List.getElem?_eq_some_iff.mp header.opens).1

theorem drop_brace (header : IsHeader kind text m) : text.drop m.brace = '\x7b' :: text.drop (m.brace + 1) := by
  obtain ⟨within,opens⟩ := List.getElem?_eq_some_iff.mp header.opens
  rw [List.drop_eq_getElem_cons within,opens]

theorem start_lt (header : IsHeader kind text m) : m.start < m.brace := by
  obtain ⟨h,_,part⟩ := header.heading
  exact lt_of_extract part h.chars_ne_nil

theorem isa_lt (header : IsHeader kind text m) : m.isa < m.stop := by
  obtain ⟨l,part⟩ := header.line
  exact lt_of_extract part l.chars_ne_nil

theorem drop_start (header : IsHeader kind text m) :
    ∃ h : Heading, h.id.text = m.id ∧ text.drop m.start = h.chars ++ '\x7b' :: text.drop (m.brace + 1) := by
  obtain ⟨h,id,part⟩ := header.heading
  obtain ⟨_,cut⟩ := (extract_eq_iff header.start_lt.le header.brace_lt.le).mp part
  exact ⟨h,id,cut.trans (congrArg (h.chars ++ ·) header.drop_brace)⟩

theorem kindAhead (header : IsHeader kind text m) :
    ∃ lead, m.isa = m.brace + 1 + lead.length ∧
      KindAhead kind (some '\x7b') (text.drop (m.brace + 1)) lead (text.drop m.stop) := by
  have ordered := header.isa_lt
  have within := header.within
  have inside : m.brace + 1 ≤ m.isa := header.inside
  obtain ⟨place,cut⟩ := (extract_eq_iff inside (ordered.le.trans within)).mp rfl
  obtain ⟨l,part⟩ := header.line
  obtain ⟨_,behindIsa⟩ := (extract_eq_iff ordered.le within).mp part
  refine ⟨_,place,header.braceless,?_,l,cut.trans (congrArg _ behindIsa)⟩
  have opened : text.drop m.brace = ('\x7b' :: text.extract (m.brace + 1) m.isa) ++ text.drop m.isa := by
    rw [header.drop_brace,List.cons_append,← cut]
  have last := behind_take_add none opened
  have place' : m.brace + ('\x7b' :: text.extract (m.brace + 1) m.isa).length = m.isa := by
    rw [List.length_cons]
    omega
  rw [place',behind_cons] at last
  rw [← last]
  exact startsWord_behind.mpr header.key

theorem header?_start (header : IsHeader kind text m) : ∃ rest, header? kind (behind none (text.take m.start))
    (text.drop m.start) = some (⟨m.id.toList,text.drop m.brace⟩,rest) := by
  obtain ⟨h,id,cut⟩ := header.drop_start
  obtain ⟨lead,_,ahead⟩ := header.kindAhead
  cases found : isaAhead? kind (some '\x7b') (text.drop (m.brace + 1)) with
  | none => exact absurd ahead (isaAhead?_eq_none.mp found _ _)
  | some rest =>
    refine ⟨rest,header?_eq_some.mpr ⟨startsWord_behind.mpr header.word,h,_,cut,?_,found⟩⟩
    rw [header.drop_brace,← id]
    rfl

theorem behind_stop (header : IsHeader kind text m) : behind none (text.take m.stop) = some ';' := by
  obtain ⟨l,part⟩ := header.line
  obtain ⟨stop,cut⟩ := (extract_eq_iff header.isa_lt.le header.within).mp part
  rw [stop,behind_take_add none cut]
  simp [KindLine.chars,behind_append]

/-- A header is told by its start and by the place of its kind. -/
theorem unique (one : IsHeader kind text m) (other : IsHeader kind text n) (start : m.start = n.start)
    (isa : m.isa = n.isa) : m = n := by
  obtain ⟨rest,read⟩ := one.header?_start
  obtain ⟨rest',read'⟩ := other.header?_start
  rw [start,read',Option.some.injEq,Prod.mk.injEq,Header.mk.injEq] at read
  obtain ⟨⟨id,group⟩,_⟩ := read
  have brace := drop_inj other.brace_lt.le one.brace_lt.le group
  obtain ⟨lead,place,ahead⟩ := one.kindAhead
  obtain ⟨lead',place',ahead'⟩ := other.kindAhead
  have size : lead.length = lead'.length := by omega
  have line := ahead.line
  have line' := ahead'.line
  rw [brace] at line'
  obtain ⟨l,whole⟩ := line
  obtain ⟨l',whole'⟩ := line'
  obtain ⟨_,lines⟩ := List.append_inj (whole.symm.trans whole') size
  have stop := drop_inj one.within other.within (KindLine.rest_unique lines)
  exact HeaderSpan.ext (String.toList_inj.mp id.symm) start brace.symm isa stop

end IsHeader

theorem exists_isHeader_of_cut {i : Nat} {heading : Heading} {inside lead rest : List Char} (within : i ≤ text.length)
    (starts : startsWord (behind none (text.take i)) = true) (cut : text.drop i = heading.chars ++ '\x7b' :: inside)
    (ahead : KindAhead kind (some '\x7b') inside lead rest) :
    ∃ m, IsHeader kind text m ∧ m.id = heading.id.text ∧ m.start = i ∧ text.drop (m.brace + 1) = inside ∧
      m.isa = m.brace + 1 + lead.length ∧ text.drop m.stop = rest := by
  obtain ⟨l,rfl⟩ := ahead.line
  let brace := i + heading.chars.length
  let isa := brace + ('\x7b' :: lead).length
  let stop := isa + (l.chars kind).length
  have atBrace : text.drop brace = ('\x7b' :: lead) ++ (l.chars kind ++ rest) := drop_add cut
  have atIsa : text.drop isa = l.chars kind ++ rest := drop_add atBrace
  have atStop : text.drop stop = rest := drop_add atIsa
  have behindBrace : text.drop (brace + 1) = lead ++ (l.chars kind ++ rest) := by
    rw [← List.drop_drop,atBrace]
    rfl
  have size : text.length = stop + rest.length := by
    have size := congrArg List.length cut
    simp only [List.length_drop,List.length_append,List.length_cons] at size
    simp only [stop,isa,brace,List.length_cons]
    omega
  have place : isa = brace + 1 + lead.length := by
    simp only [isa,List.length_cons]
    omega
  have ordered : i ≤ brace ∧ brace + 1 ≤ isa ∧ isa ≤ stop ∧ stop ≤ text.length := by omega
  have front : text.extract i brace = heading.chars :=
    (extract_eq_iff ordered.1 (by omega)).mpr ⟨rfl,by rw [cut,atBrace]; rfl⟩
  have opens : text[brace]? = some '\x7b' := by
    rw [← List.head?_drop,atBrace]
    rfl
  have middle : text.extract (brace + 1) isa = lead :=
    (extract_eq_iff ordered.2.1 (by omega)).mpr ⟨place,by rw [behindBrace,atIsa]⟩
  have last : text.extract isa stop = l.chars kind :=
    (extract_eq_iff ordered.2.2.1 ordered.2.2.2).mpr ⟨rfl,by rw [atIsa,atStop]⟩
  have key : startsWord (behind none (text.take isa)) = true := by
    rw [behind_take_add none atBrace,behind_cons]
    exact ahead.starts
  have header : IsHeader kind text ⟨heading.id.text,i,brace,isa,stop⟩ :=
    ⟨startsWord_behind.mp starts,⟨heading,rfl,front⟩,opens,ordered.2.1,middle ▸ ahead.braceless,
      startsWord_behind.mp key,⟨l,last⟩,ordered.2.2.2⟩
  exact ⟨_,header,rfl,rfl,behindBrace,place,atStop⟩

/-- What is read at an index is the header that starts there, with the first line of its kind. -/
theorem exists_isHeader {i : Nat} {h : Header} {rest : List Char} (within : i ≤ text.length)
    (read : header? kind (behind none (text.take i)) (text.drop i) = some (h,rest)) :
    ∃ m, IsHeader kind text m ∧ m.start = i ∧
      h = ⟨m.id.toList,text.drop m.brace⟩ ∧ rest = text.drop m.stop ∧
      ∀ n, IsHeader kind text n → n.start = i → m.isa ≤ n.isa := by
  obtain ⟨starts,heading,inside,cut,rfl,found⟩ := header?_eq_some.mp read
  obtain ⟨lead,ahead,least⟩ := isaAhead?_eq_some.mp found
  obtain ⟨m,header,id,start,rfl,place,stop⟩ := exists_isHeader_of_cut within starts cut ahead
  refine ⟨m,header,start,?_,stop.symm,fun n other starts' => ?_⟩
  · rw [header.drop_brace,id]
    rfl
  · obtain ⟨_,read'⟩ := other.header?_start
    rw [starts',read,Option.some.injEq,Prod.mk.injEq,Header.mk.injEq] at read'
    obtain ⟨⟨_,group⟩,_⟩ := read'
    rw [← header.drop_brace] at group
    have brace := drop_inj header.brace_lt.le other.brace_lt.le group
    obtain ⟨lead',place',ahead'⟩ := other.kindAhead
    rw [← brace] at ahead'
    have shorter := least _ _ ahead'
    omega

/-! The scan. -/

namespace Scans

variable {i : Nat} {found others : List HeaderSpan}

theorem isHeader (scan : Scans kind text i found) : ∀ m ∈ found, IsHeader kind text m := by
  induction scan with
  | done none => exact nofun
  | next header later first tail ih => exact List.forall_mem_cons.mpr ⟨header,ih⟩

theorem unique (one : Scans kind text i found) (other : Scans kind text i others) : found = others := by
  induction one generalizing others with
  | done none =>
    cases other with
    | done _ => rfl
    | next header later _ _ => exact absurd (none _ header) (Nat.not_lt.mpr later)
  | next header later first tail ih =>
    cases other with
    | done none => exact absurd (none _ header) (Nat.not_lt.mpr later)
    | @next _ n _ header' later' first' tail' =>
      have one := first n header' later'
      have other := first' _ header later
      obtain rfl := header.unique header' (by omega) (by omega)
      rw [ih tail']

theorem skip (none : ∀ m, IsHeader kind text m → m.start ≠ i) (scan : Scans kind text (i + 1) found) :
    Scans kind text i found := by
  have behind_ (m : HeaderSpan) (header : IsHeader kind text m) (later : i ≤ m.start) : i + 1 ≤ m.start :=
    Nat.lt_of_le_of_ne later (none m header).symm
  cases scan with
  | done past =>
    refine .done fun m header => Nat.lt_of_not_le fun later => ?_
    exact absurd (past m header) (Nat.not_lt.mpr (behind_ m header later))
  | next header later first tail =>
    exact .next header (Nat.le_of_succ_le later) (fun n other later => first n other (behind_ n other later)) tail

end Scans

/-- The search for headers finds those of the scan. -/
theorem exists_scan (kind text : List Char) {i : Nat} (within : i ≤ text.length) :
    ∃ found, Scans kind text i found ∧ allFrom (header? kind) (behind none (text.take i)) 0 (text.drop i) =
      found.map fun m => ⟨m.id.toList,text.drop m.brace⟩ := by
  -- On what is left of the text: behind a header the search goes on where the header stops.
  induction left : text.length - i using Nat.strong_induction_on generalizing i with
  | _ size ih =>
    subst left
    cases rest : text.drop i with
    | nil =>
      have last := List.drop_eq_nil_iff.mp rest
      refine ⟨[],.done fun m header => ?_,rfl⟩
      exact (header.start_lt.trans header.brace_lt).trans_le last
    | cons c cs =>
      have inside : i < text.length := by
        have size := congrArg List.length rest
        rw [List.length_drop,List.length_cons] at size
        omega
      cases read : header? kind (behind none (text.take i)) (c :: cs) with
      | none =>
        have one : text.drop i = [c] ++ cs := rest
        have next : text.drop (i + 1) = cs := drop_add one
        have last : behind none (text.take (i + 1)) = some c := behind_take_add none one
        obtain ⟨found,scan,searched⟩ := ih (text.length - (i + 1)) (by omega) inside rfl
        rw [next,last] at searched
        refine ⟨found,scan.skip ?_,?_⟩
        · rintro m header rfl
          obtain ⟨_,read'⟩ := header.header?_start
          rw [rest,read] at read'
          cases read'
        · rw [allFrom,read]
          exact searched
      | some reading =>
        obtain ⟨h,left⟩ := reading
        rw [← rest] at read
        obtain ⟨m,header,start,rfl,rfl,least⟩ := exists_isHeader within read
        have ordered := header.start_lt
        have ordered' := header.inside
        have ordered'' := header.isa_lt
        obtain ⟨found,scan,searched⟩ := ih (text.length - m.stop) (by omega) header.within rfl
        have first (n : HeaderSpan) (other : IsHeader kind text n) (later : i ≤ n.start) :
            m.start < n.start ∨ m.start = n.start ∧ m.isa ≤ n.isa := by
          rcases Nat.lt_or_eq_of_le later with behind_ | same
          · exact .inl (start ▸ behind_)
          · exact .inr ⟨start.trans same,least n other same.symm⟩
        refine ⟨m :: found,.next header start.ge first scan,?_⟩
        have suffix := header?_rest read
        rw [rest] at read suffix
        rw [allFrom_of_suffix read suffix,List.map_cons,← header.behind_stop,searched]

/-! Sections. -/

def HeaderSpan.body? (text : List Char) (m : HeaderSpan) : Option String :=
  (matchingBrace? text m.brace).map fun close => String.ofList (text.extract (m.brace + 1) close)

structure SectionAt (kind text : List Char) (id body : String) (start brace close : Nat) : Prop where
  ordered : start < brace ∧ brace < close
  word : ∀ c ∈ (text.take start).getLast?, isWord c = false
  heading : ∃ h : Heading, h.id.text = id ∧ text.extract start brace = h.chars
  opens : text[brace]? = some '\x7b'
  closes : matchingBrace? text brace = some close
  inside : body.toList = text.extract (brace + 1) close
  named : ∃ lead, ∃ l : KindLine, ∃ rest, body.toList = lead ++ (l.chars kind ++ rest) ∧
    (∀ c ∈ lead, c ≠ '\x7b' ∧ c ≠ '\x7d') ∧ ∀ c ∈ lead.getLast?, isWord c = false

theorem entry?_eq (m : HeaderSpan) : Header.entry? ⟨m.id.toList,text.drop m.brace⟩ =
    (m.body? text).map fun body => (m.id,body) := by
  have body (k : Nat) : ((text.drop m.brace).take k).drop 1 = text.extract (m.brace + 1) (k + m.brace) := by
    rw [List.drop_take,List.drop_drop,List.extract_eq_take_drop]
    congr 1
    omega
  rw [ Header.entry?,groupBody?,HeaderSpan.body?,matchingBrace?,matchingBrace?,List.drop_zero]
  simp only [Option.map_map]
  cases closingOffset 0 .plain (text.drop m.brace) with
  | none => rfl
  | some k =>
    simp [body]

theorem matchingBrace?_closes {start close : Nat} (opens : text[start]? = some '\x7b')
    (found : matchingBrace? text start = some close) : start < close ∧ text[close]? = some '\x7d' := by
  obtain ⟨within,brace⟩ := List.getElem?_eq_some_iff.mp opens
  obtain ⟨k,offset,rfl⟩ := Option.map_eq_some_iff.mp found
  rw [List.drop_eq_getElem_cons within,brace] at offset
  obtain ⟨bound,inner,_,group⟩ := isGroup_of_closingOffset offset
  have size : k = inner.length + 1 := by
    have size := congrArg List.length group
    rw [List.length_take_of_le bound,List.length_cons,List.length_append,List.length_singleton] at size
    omega
  have last : ('\x7b' :: text.drop (start + 1))[k]? = some '\x7d' := by
    rw [← List.getElem?_take_of_lt (Nat.lt_succ_self k),group,size]
    simp
  rw [← brace,← List.drop_eq_getElem_cons within,List.getElem?_drop,Nat.add_comm] at last
  exact ⟨by omega,last⟩

theorem KindLine.braceless (l : KindLine) (braceless : ∀ c ∈ kind, c ≠ '\x7b' ∧ c ≠ '\x7d') :
    ∀ c ∈ l.chars kind, c ≠ '\x7d' := by
  intro c member
  have blank (inside : c ∈ l.gap ++ (l.gap' ++ l.gap'')) : c ≠ '\x7d' := ne_of_class (l.blank c inside) (by decide)
  simp only [List.mem_append] at blank
  simp only [chars,List.mem_append,List.mem_cons,List.not_mem_nil,or_false] at member
  rcases member with key | gap | rfl | gap | named | gap | rfl
  · exact (by decide : ∀ c ∈ "isa".toList, c ≠ '\x7d') c key
  · exact blank (.inl gap)
  · decide
  · exact blank (.inr (.inl gap))
  · exact (braceless c named).2
  · exact blank (.inr (.inr gap))
  · decide

namespace IsHeader

theorem drop_inside (header : IsHeader kind text m) : ∃ lead, ∃ l : KindLine,
    m.stop = m.brace + 1 + (lead ++ l.chars kind).length ∧
      text.drop (m.brace + 1) = (lead ++ l.chars kind) ++ text.drop m.stop ∧
      (∀ c ∈ lead, c ≠ '\x7b' ∧ c ≠ '\x7d') ∧ ∀ c ∈ lead.getLast?, isWord c = false := by
  obtain ⟨lead,_,ahead⟩ := header.kindAhead
  obtain ⟨l,line⟩ := ahead.line
  have apart : ∀ c ∈ lead.getLast?, isWord c = false :=
    apart_of_any_behind ((Bool.not_eq_true' _).mp ahead.starts)
  have ordered := header.inside
  have ordered' := header.isa_lt
  have within := header.within
  have cut : text.drop (m.brace + 1) = (lead ++ l.chars kind) ++ text.drop m.stop := by
    rw [line,List.append_assoc]
  have size := congrArg List.length cut
  rw [List.length_append,List.length_drop,List.length_drop] at size
  exact ⟨lead,l,by omega,cut,ahead.braceless,apart⟩

/-- No brace stands in a header behind its own, so the one that closes its section stands behind all of it. -/
theorem stop_le (braceless : ∀ c ∈ kind, c ≠ '\x7b' ∧ c ≠ '\x7d') (header : IsHeader kind text m)
    {close : Nat} (found : matchingBrace? text m.brace = some close) : m.stop ≤ close := by
  obtain ⟨behind_,brace⟩ := matchingBrace?_closes header.opens found
  obtain ⟨lead,l,stop,cut,plain,_⟩ := header.drop_inside
  refine Nat.le_of_not_lt fun early => ?_
  have place : (text.drop (m.brace + 1))[close - (m.brace + 1)]? = some '\x7d' := by
    rw [List.getElem?_drop,Nat.add_sub_cancel' behind_,brace]
  rw [cut,List.getElem?_append_left (by omega)] at place
  rcases List.mem_append.mp (List.mem_of_getElem? place) with member | member
  · exact (plain _ member).2 rfl
  · exact l.braceless braceless _ member rfl

theorem sectionAt (braceless : ∀ c ∈ kind, c ≠ '\x7b' ∧ c ≠ '\x7d') (header : IsHeader kind text m)
    {close : Nat} (found : matchingBrace? text m.brace = some close) :
    SectionAt kind text m.id (String.ofList (text.extract (m.brace + 1) close)) m.start m.brace close := by
  obtain ⟨behind_,_⟩ := matchingBrace?_closes header.opens found
  obtain ⟨lead,l,stop,cut,plain,apart⟩ := header.drop_inside
  have past := header.stop_le braceless found
  have size : close - (m.brace + 1) = (lead ++ l.chars kind).length + (close - m.stop) := by omega
  refine ⟨⟨header.start_lt,behind_⟩,header.word,header.heading,header.opens,found,String.toList_ofList,
    lead,l,(text.drop m.stop).take (close - m.stop),?_,plain,apart⟩
  rw [String.toList_ofList,List.extract_eq_take_drop,cut,size,List.take_length_add_append,List.append_assoc]

end IsHeader

theorem getLast?_filterMap_pairs {α : Type} {f : HeaderSpan → Option α} (found : List HeaderSpan) (id : String) :
    ((found.filterMap fun m => (f m).map fun a => (m.id,a)).filter fun p => p.1 = id).getLast?.map Prod.snd =
      ((found.filter fun m => m.id = id).filterMap f).getLast? := by
  rw [← List.getLast?_map,List.filter_filterMap,List.map_filterMap,List.filterMap_filter]
  congr 1
  apply List.filterMap_congr
  intro m _
  by_cases same : m.id = id <;> cases f m <;> simp [same]

theorem map_fst_filterMap_pairs {α : Type} {f : HeaderSpan → Option α} (found : List HeaderSpan) :
    (found.filterMap fun m => (f m).map fun a => (m.id,a)).map Prod.fst =
      (found.filter fun m => (f m).isSome).map (·.id) := by
  induction found with
  | nil => rfl
  | cons m found ih =>
    cases read : f m <;> simp [read,ih]

/-- The headers of a text are found from left to right, and each entry of the table of sections is the inside of a
header's own brace, up to the brace that closes it. Among the headers with a closed brace the first with an id gives
it its place, and the last gives it its body; a header whose brace is not closed adds nothing. -/
theorem sections_are_of_headers (text kind : String)
    (braceless : ∀ c ∈ kind.toList, c ≠ '\x7b' ∧ c ≠ '\x7d') :
    ∃ found, Scans kind.toList text.toList 0 found ∧
      (∀ other, Scans kind.toList text.toList 0 other → other = found) ∧
      (∀ s ∈ sections text kind, ∃ m ∈ found, m.id = s.1 ∧ ∃ close,
        SectionAt kind.toList text.toList s.1 s.2 m.start m.brace close) ∧
      Table.keys (sections text kind) =
        ((found.filter fun m => (m.body? text.toList).isSome).map (·.id)).eraseDups ∧
      ∀ id, Table.get? (sections text kind) id =
        ((found.filter fun m => m.id = id).filterMap (·.body? text.toList)).getLast? := by
  obtain ⟨found,scan,searched⟩ := exists_scan kind.toList text.toList (Nat.zero_le _)
  have pairs : (all (header? kind.toList) text.toList).filterMap Header.entry? =
      found.filterMap fun m => (m.body? text.toList).map fun body => (m.id,body) := by
    have headers : all (header? kind.toList) text.toList =
      found.map fun m => ⟨m.id.toList,text.toList.drop m.brace⟩ := searched
    rw [headers,List.filterMap_map]
    exact List.filterMap_congr fun m _ => entry?_eq m
  have value (id : String) : Table.get? (sections text kind) id =
      ((found.filter fun m => m.id = id).filterMap (·.body? text.toList)).getLast? := by
    rw [sections,pairs,Table.get?_ofPairs,getLast?_filterMap_pairs]
  refine ⟨found,scan,fun other scan' => scan'.unique scan,fun s member => ?_,?_,value⟩
  · have distinct : (Table.keys (sections text kind)).Nodup := Table.nodup_keys_ofPairs _
    have last := Table.get?_of_mem distinct member
    rw [value] at last
    obtain ⟨m,filed,body⟩ := List.mem_filterMap.mp (List.mem_of_getLast? last)
    obtain ⟨known,id⟩ := List.mem_filter.mp filed
    obtain ⟨close,closes,inside⟩ := Option.map_eq_some_iff.mp body
    have same := of_decide_eq_true id
    refine ⟨m,known,same,close,?_⟩
    rw [← same,← inside]
    exact (scan.isHeader m known).sectionAt braceless closes
  · rw [sections,pairs,Table.keys_ofPairs,map_fst_filterMap_pairs]

def crossedText : String :=
  "A /* \" = \x7b */ = \x7bx; isa = T; p = \"\x7d\";\x7d;C = \x7bisa = T;\x7d;B = \x7bisa = T; q = \x7b;A=\x7bisa=T ;r;\x7d"

theorem crossed_sections_are_told_apart :
    (∀ c ∈ "T".toList, c ≠ '\x7b' ∧ c ≠ '\x7d') ∧
    sections crossedText "T" = [("A","isa=T ;r;"),("C","isa = T;")] ∧
    (∃ start brace close, SectionAt "T".toList crossedText.toList "A" "isa=T ;r;" start brace close) ∧
    ∃ found, Scans "T".toList crossedText.toList 0 found ∧
      ((found.filter fun m => m.id = "A").filterMap (·.body? crossedText.toList)).getLast? = some "isa=T ;r;" ∧
      ((found.filter fun m => m.id = "B").filterMap (·.body? crossedText.toList)).getLast? = none := by
  have braceless : ∀ c ∈ "T".toList, c ≠ '\x7b' ∧ c ≠ '\x7d' := by decide
  have table : sections crossedText "T" = [("A","isa=T ;r;"),("C","isa = T;")] := by decide
  obtain ⟨found,scan,_,entries,_,values⟩ := sections_are_of_headers crossedText "T" braceless
  obtain ⟨m,_,_,close,place⟩ := entries ("A","isa=T ;r;") (by simp [table])
  refine ⟨braceless,table,⟨_,_,close,place⟩,found,scan,?_,?_⟩
  · rw [← values,table]
    rfl
  · rw [← values,table]
    rfl

end DepAudit.ProjectFile
