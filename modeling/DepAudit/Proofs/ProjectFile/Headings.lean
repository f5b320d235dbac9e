import DepAudit.Proofs.ProjectFile.Comments
import DepAudit.Proofs.ProjectFile.Sections

/-! What a header is in any text: an id, a comment or none, an equals sign and a brace, and behind the brace the first
line that names the kind, with no brace before it. -/
namespace DepAudit.ProjectFile
open Text

structure Heading where
  id : Phrase isWord
  gap : List Char
  gloss : Option Gloss
  gap' : List Char
  gap'' : List Char
  blank : ∀ c ∈ gap ++ (gap' ++ gap''), isBlank c = true

def Heading.chars (h : Heading) : List Char :=
  h.id.chars ++ (h.gap ++ (h.gloss.elim [] Gloss.chars ++ (h.gap' ++ '=' :: h.gap'')))

structure KindLine where
  gap : List Char
  gap' : List Char
  gap'' : List Char
  blank : ∀ c ∈ gap ++ (gap' ++ gap''), isBlank c = true

def KindLine.chars (kind : List Char) (l : KindLine) : List Char :=
  "isa".toList ++ (l.gap ++ '=' :: (l.gap' ++ (kind ++ (l.gap'' ++ [';']))))

variable {kind cs rest : List Char} {before : Option Char}

/-! Gaps with a comment or none. -/

theorem skipGap_run {gap gap' : List Char} (gloss : Option Gloss) (blank : ∀ c ∈ gap ++ gap', isBlank c = true)
    (rest : List Char) :
    skipGap (gap ++ (gloss.elim [] Gloss.chars ++ (gap' ++ '=' :: rest))) = '=' :: rest := by
  obtain ⟨blanks,blanks'⟩ := List.forall_mem_append.mp blank
  have equal : skipBlanks (gap' ++ '=' :: rest) = '=' :: rest := dropWhile_run blanks' (stops_cons (by decide) _)
  cases gloss with
  | none =>
    have first : skipBlanks (gap ++ (gap' ++ '=' :: rest)) = '=' :: rest := by
      rw [← List.append_assoc]
      exact dropWhile_run blank (stops_cons (by decide) _)
    have stays : skipGap ('=' :: rest) = '=' :: rest := Layout.skipGap_cons (by decide) (by decide) rest
    rw [skipGap,skipBlanks_cons (by decide)] at stays
    rw [Option.elim_none,List.nil_append,skipGap,first,stays]
  | some g =>
    have first : skipBlanks (gap ++ (g.chars ++ (gap' ++ '=' :: rest))) = g.chars ++ (gap' ++ '=' :: rest) :=
      dropWhile_run blanks (stops_cons (by decide) _)
    rw [Option.elim_some,skipGap,first,skipComment,g.afterComment?_chars,Option.getD_some,equal]

theorem exists_gap (cs : List Char) : ∃ gap gap' : List Char, ∃ gloss : Option Gloss,
    (∀ c ∈ gap ++ gap', isBlank c = true) ∧ cs = gap ++ (gloss.elim [] Gloss.chars ++ (gap' ++ skipGap cs)) := by
  obtain ⟨gap,blanks,_,whole⟩ := exists_run isBlank cs
  cases found : afterComment? (skipBlanks cs) with
  | none =>
    obtain ⟨gap',blanks',_,behind⟩ := exists_run isBlank (skipBlanks cs)
    refine ⟨gap,gap',none,List.forall_mem_append.mpr ⟨blanks,blanks'⟩,?_⟩
    rw [skipGap,skipComment,found]
    exact whole.trans (congrArg (gap ++ ·) behind)
  | some rest =>
    obtain ⟨g,comment⟩ := afterComment?_eq_some.mp found
    obtain ⟨gap',blanks',_,behind⟩ := exists_run isBlank rest
    refine ⟨gap,gap',some g,List.forall_mem_append.mpr ⟨blanks,blanks'⟩,?_⟩
    rw [skipGap,skipComment,found]
    refine whole.trans (congrArg (gap ++ ·) (comment.trans ?_))
    exact congrArg (g.chars ++ ·) behind

/-! The line of a kind. -/

theorem kindEnd?_eq_some :
    kindEnd? kind cs = some rest ↔
      ∃ gap, (∀ c ∈ gap, isBlank c = true) ∧ cs = kind ++ (gap ++ ';' :: rest) := by
  constructor
  · intro found
    obtain ⟨behindKind,named,ended⟩ := Option.bind_eq_some_iff.mp found
    obtain ⟨gap,blank,_,whole⟩ := exists_run isBlank behindKind
    have mark : behindKind.dropWhile isBlank = ';' :: rest := after?_eq_some.mp ended
    exact ⟨gap,blank,by rw [after?_eq_some.mp named,← mark,← whole]⟩
  · rintro ⟨gap,blank,rfl⟩
    have mark : skipBlanks (gap ++ ';' :: rest) = ';' :: rest := dropWhile_run blank (stops_cons (by decide) _)
    rw [kindEnd?,after?_append]
    change after? [';'] (skipBlanks (gap ++ ';' :: rest)) = some rest
    rw [mark]
    exact after?_append [';'] rest

section blanks

variable {α : Type} {p : List Char → Option α}

theorem exists_of_afterBlanks? {a : α} (found : afterBlanks? p cs = some a) :
    ∃ gap back, (∀ c ∈ gap, isBlank c = true) ∧ cs = gap ++ back ∧ p back = some a := by
  induction cs with
  | nil => exact ⟨[],[],nofun,rfl,found⟩
  | cons c cs ih =>
    rw [afterBlanks?] at found
    split at found
    · rename_i blank
      rw [Option.orElse_eq_orElse,Option.orElse_eq_or] at found
      rcases Option.or_eq_some_iff.mp found with later | ⟨_,here⟩
      · obtain ⟨gap,back,blanks,rfl,read⟩ := ih later
        exact ⟨c :: gap,back,List.forall_mem_cons.mpr ⟨blank,blanks⟩,rfl,read⟩
      · exact ⟨[],c :: cs,nofun,rfl,here⟩
    · exact ⟨[],c :: cs,nofun,rfl,found⟩

theorem isSome_afterBlanks? {gap back : List Char} (blank : ∀ c ∈ gap, isBlank c = true)
    (reads : (p back).isSome = true) : (afterBlanks? p (gap ++ back)).isSome = true := by
  induction gap with
  | nil =>
    cases back with
    | nil => exact reads
    | cons c back =>
      rw [List.nil_append,afterBlanks?]
      split
      · simp [reads]
      · exact reads
  | cons c gap ih =>
    obtain ⟨here,later⟩ := List.forall_mem_cons.mp blank
    rw [List.cons_append,afterBlanks?,if_pos here]
    simp [ih later]

end blanks

theorem isaLine?_eq (kind : List Char) (before : Option Char) (cs : List Char) :
    isaLine? kind before cs = if startsWord before then (after? "isa".toList cs).bind fun rest =>
      (after? ['='] (skipBlanks rest)).bind (afterBlanks? (kindEnd? kind)) else none := by
  rw [isaLine?]
  cases startsWord before with
  | false => rfl
  | true => rfl

/-- Behind a kind the same text is left, however its blanks are shared out. -/
theorem KindLine.rest_unique {l l' : KindLine} {back back' : List Char}
    (same : l.chars kind ++ back = l'.chars kind ++ back') : back = back' := by
  have behindKind (l : KindLine) (back : List Char) :
      ((skipBlanks ((l.chars kind ++ back).drop 3)).drop 1).dropWhile isBlank =
        (kind ++ (l.gap'' ++ ';' :: back)).dropWhile isBlank := by
    obtain ⟨blanks,others⟩ := List.forall_mem_append.mp l.blank
    obtain ⟨blanks',_⟩ := List.forall_mem_append.mp others
    have sign : skipBlanks (l.gap ++ '=' :: (l.gap' ++ (kind ++ (l.gap'' ++ ';' :: back)))) =
        '=' :: (l.gap' ++ (kind ++ (l.gap'' ++ ';' :: back))) :=
      dropWhile_run blanks (stops_cons (by decide) _)
    have behindKey : (l.chars kind ++ back).drop 3 =
        l.gap ++ '=' :: (l.gap' ++ (kind ++ (l.gap'' ++ ';' :: back))) := by
      simp [chars]
    rw [behindKey,sign,List.drop_succ_cons,List.drop_zero,List.dropWhile_append_of_pos blanks']
  have last (l : KindLine) (back : List Char) :
      (l.gap'' ++ ';' :: back).dropWhile isBlank = ';' :: back := by
    obtain ⟨_,others⟩ := List.forall_mem_append.mp l.blank
    exact dropWhile_run (List.forall_mem_append.mp others).2 (stops_cons (by decide) _)
  have kinds : (kind ++ (l.gap'' ++ ';' :: back)).dropWhile isBlank =
      (kind ++ (l'.gap'' ++ ';' :: back')).dropWhile isBlank := by
    rw [← behindKind,← behindKind,same]
  have marks : ';' :: back = ';' :: back' := by
    by_cases empty : ∀ c ∈ kind, isBlank c = true
    · rwa [List.dropWhile_append_of_pos empty,List.dropWhile_append_of_pos empty,last,last] at kinds
    · obtain ⟨c,member,visible⟩ := by simpa using empty
      rw [dropWhile_append_of_outside member visible,dropWhile_append_of_outside member visible] at kinds
      calc ';' :: back = (l.gap'' ++ ';' :: back).dropWhile isBlank := (last l back).symm
        _ = (l'.gap'' ++ ';' :: back').dropWhile isBlank := by rw [List.append_cancel_left kinds]
        _ = ';' :: back' := last l' back'
  exact (List.cons.inj marks).2

theorem isaLine?_eq_some : isaLine? kind before cs = some rest ↔
    startsWord before = true ∧ ∃ l : KindLine, cs = l.chars kind ++ rest := by
  have sound {rest : List Char} (found : isaLine? kind before cs = some rest) :
      startsWord before = true ∧ ∃ l : KindLine, cs = l.chars kind ++ rest := by
    rw [isaLine?_eq] at found
    obtain ⟨starts,found⟩ := Option.ite_none_right_eq_some.mp found
    obtain ⟨behindKey,key,found⟩ := Option.bind_eq_some_iff.mp found
    obtain ⟨behindSign,sign,found⟩ := Option.bind_eq_some_iff.mp found
    obtain ⟨gap,blanks,_,whole⟩ := exists_run isBlank behindKey
    obtain ⟨gap',back,blanks',rfl,named⟩ := exists_of_afterBlanks? found
    obtain ⟨gap'',blanks'',rfl⟩ := kindEnd?_eq_some.mp named
    have blank : ∀ c ∈ gap ++ (gap' ++ gap''), isBlank c = true :=
      List.forall_mem_append.mpr ⟨blanks,List.forall_mem_append.mpr ⟨blanks',blanks''⟩⟩
    refine ⟨starts,⟨gap,gap',gap'',blank⟩,?_⟩
    have equal : behindKey.dropWhile isBlank = _ := after?_eq_some.mp sign
    rw [equal] at whole
    rw [after?_eq_some.mp key,whole]
    simp [KindLine.chars]
  constructor
  · exact sound
  · rintro ⟨starts,l,rfl⟩
    obtain ⟨blanks,others⟩ := List.forall_mem_append.mp l.blank
    obtain ⟨blanks',blanks''⟩ := List.forall_mem_append.mp others
    have whole : l.chars kind ++ rest =
        "isa".toList ++ (l.gap ++ '=' :: (l.gap' ++ (kind ++ (l.gap'' ++ ';' :: rest)))) := by
      simp [KindLine.chars]
    have sign : skipBlanks (l.gap ++ '=' :: (l.gap' ++ (kind ++ (l.gap'' ++ ';' :: rest)))) =
        '=' :: (l.gap' ++ (kind ++ (l.gap'' ++ ';' :: rest))) :=
      dropWhile_run blanks (stops_cons (by decide) _)
    have equal : after? ['='] ('=' :: (l.gap' ++ (kind ++ (l.gap'' ++ ';' :: rest)))) =
        some (l.gap' ++ (kind ++ (l.gap'' ++ ';' :: rest))) := after?_append ['='] _
    have named : kindEnd? kind (kind ++ (l.gap'' ++ ';' :: rest)) = some rest :=
      kindEnd?_eq_some.mpr ⟨l.gap'',blanks'',rfl⟩
    have reads : (isaLine? kind before (l.chars kind ++ rest)).isSome = true := by
      rw [whole,isaLine?_eq,if_pos starts,after?_append,Option.bind_some,sign,equal,Option.bind_some]
      exact isSome_afterBlanks? blanks' (by rw [named]; rfl)
    -- Blanks may be read as part of the kind, but what is read ends at the same place.
    obtain ⟨left,found⟩ := Option.isSome_iff_exists.mp reads
    obtain ⟨_,l',same⟩ := sound found
    rw [found,KindLine.rest_unique same]

/-! The first line of a kind. -/

structure KindAhead (kind : List Char) (before : Option Char) (cs lead rest : List Char) : Prop where
  braceless : ∀ c ∈ lead, c ≠ '\x7b' ∧ c ≠ '\x7d'
  starts : startsWord (behind before lead) = true
  line : ∃ l : KindLine, cs = lead ++ (l.chars kind ++ rest)

theorem KindAhead.isaLine? {lead : List Char} (ahead : KindAhead kind before cs lead rest) :
    isaLine? kind (behind before lead) (cs.drop lead.length) = some rest := by
  obtain ⟨l,rfl⟩ := ahead.line
  rw [List.drop_left]
  exact isaLine?_eq_some.mpr ⟨ahead.starts,l,rfl⟩

theorem not_kindAhead_nil {lead : List Char} : ¬KindAhead kind before [] lead rest := by
  rintro ⟨_,_,l,whole⟩
  simp [KindLine.chars] at whole

/-- The line that is found is the first one. -/
theorem isaAhead?_eq_some : isaAhead? kind before cs = some rest ↔ ∃ lead, KindAhead kind before cs lead rest ∧
    ∀ lead' rest', KindAhead kind before cs lead' rest' → lead.length ≤ lead'.length := by
  induction cs generalizing before with
  | nil =>
    constructor
    · intro found
      cases found
    · rintro ⟨_,ahead,_⟩
      exact absurd ahead not_kindAhead_nil
  | cons c cs ih =>
    rw [isaAhead?]
    cases here : isaLine? kind before (c :: cs) with
    | some left =>
      obtain ⟨starts,l,whole⟩ := isaLine?_eq_some.mp here
      have first : KindAhead kind before (c :: cs) [] left := ⟨List.forall_mem_nil _,starts,l,whole⟩
      constructor
      · intro same
        cases same
        exact ⟨[],first,fun _ _ _ => Nat.zero_le _⟩
      · rintro ⟨lead,ahead,least⟩
        obtain rfl := List.length_eq_zero_iff.mp (Nat.le_zero.mp (least _ _ first))
        exact here.symm.trans ahead.isaLine?
    | none =>
      -- The lines behind the first character, with that character in front of them.
      have later {lead' rest' : List Char} : KindAhead kind before (c :: cs) lead' rest' ↔
          ∃ lead, lead' = c :: lead ∧ (c ≠ '\x7b' ∧ c ≠ '\x7d') ∧ KindAhead kind (some c) cs lead rest' := by
        constructor
        · intro ahead
          cases lead' with
          | nil =>
            have line := ahead.isaLine?
            rw [List.length_nil,List.drop_zero,behind_nil,here] at line
            cases line
          | cons d lead =>
            obtain ⟨braceless,starts,l,whole⟩ := ahead
            obtain ⟨rfl,rest⟩ := List.cons.inj whole
            obtain ⟨brace,others⟩ := List.forall_mem_cons.mp braceless
            exact ⟨lead,rfl,brace,others,starts,l,rest⟩
        · rintro ⟨lead,rfl,brace,others,starts,l,rfl⟩
          exact ⟨List.forall_mem_cons.mpr ⟨brace,others⟩,starts,l,rfl⟩
      dsimp only
      split
      · rename_i brace
        refine iff_of_false (by simp) ?_
        rintro ⟨_,ahead,_⟩
        obtain ⟨_,_,plain,_⟩ := later.mp ahead
        simp [plain] at brace
      · rename_i plain
        have braceless : c ≠ '\x7b' ∧ c ≠ '\x7d' := by simpa using plain
        rw [ih]
        constructor
        · rintro ⟨lead,ahead,least⟩
          refine ⟨c :: lead,later.mpr ⟨lead,rfl,braceless,ahead⟩,?_⟩
          intro lead' rest' other
          obtain ⟨lead',rfl,_,other⟩ := later.mp other
          exact Nat.succ_le_succ (least _ _ other)
        · rintro ⟨lead',ahead,least⟩
          obtain ⟨lead,rfl,_,ahead⟩ := later.mp ahead
          refine ⟨lead,ahead,fun other rest' there => ?_⟩
          exact Nat.succ_le_succ_iff.mp (least _ _ (later.mpr ⟨other,rfl,braceless,there⟩))

theorem isaAhead?_eq_none :
    isaAhead? kind before cs = none ↔ ∀ lead rest, ¬KindAhead kind before cs lead rest := by
  classical
  constructor
  · intro none lead rest ahead
    -- Among the lines that there are, one is the first.
    have some_ : ∃ n, ∃ lead rest, KindAhead kind before cs lead rest ∧ lead.length = n :=
      ⟨_,lead,rest,ahead,rfl⟩
    obtain ⟨lead,rest,ahead,size⟩ := Nat.find_spec some_
    have found : isaAhead? kind before cs = some rest := by
      refine isaAhead?_eq_some.mpr ⟨lead,ahead,fun lead' rest' other => ?_⟩
      rw [size]
      exact Nat.find_min' some_ ⟨lead',rest',other,rfl⟩
    rw [none] at found
    cases found
  · intro absent
    cases found : isaAhead? kind before cs with
    | none => rfl
    | some rest =>
      obtain ⟨lead,ahead,_⟩ := isaAhead?_eq_some.mp found
      exact absurd ahead (absent lead rest)

/-! Headers. -/

namespace Heading

theorem takeWhile_chars (h : Heading) (back : List Char) :
    (h.chars ++ back).takeWhile isWord = h.id.chars ∧
      skipGap ((h.chars ++ back).dropWhile isWord) = '=' :: (h.gap'' ++ back) := by
  obtain ⟨blanks,others⟩ := List.forall_mem_append.mp h.blank
  obtain ⟨blanks',_⟩ := List.forall_mem_append.mp others
  have whole : h.chars ++ back =
      h.id.chars ++ (h.gap ++ (h.gloss.elim [] Gloss.chars ++ (h.gap' ++ '=' :: (h.gap'' ++ back)))) := by
    simp [chars]
  have apart (gap : List Char) (blank : ∀ c ∈ gap, isBlank c = true) : Stops isWord gap := fun c head =>
    isWord_of_blank (blank c (List.mem_of_mem_head? head))
  have stops : Stops isWord (h.gap ++ (h.gloss.elim [] Gloss.chars ++ (h.gap' ++ '=' :: (h.gap'' ++ back)))) := by
    refine (apart _ blanks).append (Stops.append ?_ ((apart _ blanks').append (stops_cons (by decide) _)))
    cases h.gloss with
    | none => exact nofun
    | some g => exact stops_cons (by decide) _
  have words : ∀ c ∈ h.id.chars, isWord c = true := h.id.sound
  rw [whole,takeWhile_run words stops,dropWhile_run words stops]
  exact ⟨rfl,skipGap_run h.gloss (List.forall_mem_append.mpr ⟨blanks,blanks'⟩) _⟩

end Heading

theorem header?_eq_some {h : Header} : header? kind before cs = some (h,rest) ↔ startsWord before = true ∧
    ∃ heading : Heading, ∃ inside, cs = heading.chars ++ '\x7b' :: inside ∧
      h = ⟨heading.id.chars,'\x7b' :: inside⟩ ∧ isaAhead? kind (some '\x7b') inside = some rest := by
  rw [Layout.header?_eq]
  constructor
  · intro found
    obtain ⟨starts,found⟩ := Option.ite_none_right_eq_some.mp found
    rw [Bool.and_eq_true,Bool.not_eq_true',List.isEmpty_eq_false_iff] at starts
    obtain ⟨⟨group,left⟩,opened,same⟩ := Option.map_eq_some_iff.mp found
    obtain ⟨value,sign,opened⟩ := Option.bind_eq_some_iff.mp opened
    obtain ⟨inside,brace,opened⟩ := Option.bind_eq_some_iff.mp opened
    obtain ⟨_,ahead,parts⟩ := Option.map_eq_some_iff.mp opened
    obtain ⟨rfl,rfl⟩ := Prod.mk.inj parts
    obtain ⟨rfl,rfl⟩ := Prod.mk.inj same
    have equal : skipGap (cs.dropWhile isWord) = '=' :: value := after?_eq_some.mp sign
    have opening : skipBlanks value = '\x7b' :: inside := after?_eq_some.mp brace
    obtain ⟨gap,gap',gloss,blanks,behindId⟩ := exists_gap (cs.dropWhile isWord)
    obtain ⟨gap'',blanks'',_,(behindSign : value = gap'' ++ skipBlanks value)⟩ := exists_run isBlank value
    have blank : ∀ c ∈ gap ++ (gap' ++ gap''), isBlank c = true := by
      rw [← List.append_assoc]
      exact List.forall_mem_append.mpr ⟨blanks,blanks''⟩
    obtain ⟨id,spelled⟩ := Phrase.exists_of_chars starts.2 fun c => List.mem_takeWhile_imp
    refine ⟨starts.1,⟨id,gap,gloss,gap',gap'',blank⟩,inside,?_,?_,ahead⟩
    · have split : cs = cs.takeWhile isWord ++ cs.dropWhile isWord := List.takeWhile_append_dropWhile.symm
      rw [opening] at behindSign
      rw [equal,behindSign] at behindId
      rw [behindId,← spelled] at split
      rw [split,Heading.chars]
      simp
    · rw [opening,spelled]
  · rintro ⟨starts,heading,inside,rfl,rfl,ahead⟩
    obtain ⟨id,gap⟩ := heading.takeWhile_chars ('\x7b' :: inside)
    obtain ⟨_,others⟩ := List.forall_mem_append.mp heading.blank
    have group : skipBlanks (heading.gap'' ++ '\x7b' :: inside) = '\x7b' :: inside :=
      dropWhile_run (List.forall_mem_append.mp others).2 (stops_cons (by decide) _)
    have equal : after? ['='] ('=' :: (heading.gap'' ++ '\x7b' :: inside)) =
        some (heading.gap'' ++ '\x7b' :: inside) := after?_append ['='] _
    have brace : after? ['\x7b'] ('\x7b' :: inside) = some inside := after?_append ['\x7b'] _
    have filled : (!heading.id.chars.isEmpty) = true := by
      rw [Bool.not_eq_true',List.isEmpty_eq_false_iff]
      exact heading.id.filled
    rw [id,starts,filled,if_pos (by decide),Layout.opened?,gap,equal,Option.bind_some,group,brace,Option.bind_some,
      ahead]
    rfl

/-- What a header leaves of its text stands behind a semicolon. -/
theorem header?_rest {h : Header} (found : header? kind before cs = some (h,rest)) : ';' :: rest <:+ cs := by
  obtain ⟨_,heading,inside,rfl,_,ahead⟩ := header?_eq_some.mp found
  obtain ⟨lead,⟨_,_,l,rfl⟩,_⟩ := isaAhead?_eq_some.mp ahead
  refine ⟨heading.chars ++ '\x7b' :: (lead ++ ("isa".toList ++ (l.gap ++ '=' :: (l.gap' ++ (kind ++ l.gap''))))),?_⟩
  simp [KindLine.chars]

end DepAudit.ProjectFile
