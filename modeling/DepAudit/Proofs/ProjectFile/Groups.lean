import DepAudit.ProjectFile.Brace
import Mathlib.Data.List.Basic

/-! The closing brace of a group against a grammar of groups: braces around plain characters, quoted strings and
groups. A reader of braces keeps only a depth, so the texts it stops at are described by the groups that are
open: each of them has an inside still to come, and a brace behind it. -/
namespace DepAudit.ProjectFile

inductive QuotedText : List Char → Prop where
  | done : QuotedText []
  | escaped {c : Char} {rest : List Char} (tail : QuotedText rest) : QuotedText ('\\' :: c :: rest)
  | plain {c : Char} {rest : List Char} (unquoted : c ≠ '"') (unescaped : c ≠ '\\')
      (tail : QuotedText rest) : QuotedText (c :: rest)

inductive Inside : List Char → Prop where
  | done : Inside []
  | plain {c : Char} {rest : List Char} (unquoted : c ≠ '"') (unopened : c ≠ '{') (unclosed : c ≠ '}')
      (tail : Inside rest) : Inside (c :: rest)
  | quoted {text rest : List Char} (string : QuotedText text) (tail : Inside rest) :
      Inside ('"' :: (text ++ '"' :: rest))
  | group {inner rest : List Char} (inside : Inside inner) (tail : Inside rest) :
      Inside ('{' :: (inner ++ '}' :: rest))

def IsGroup (s : List Char) : Prop := ∃ inner, Inside inner ∧ s = '{' :: (inner ++ ['}'])

def Spans (text : List Char) (start close : Nat) : Prop :=
  close < text.length ∧ IsGroup (text.extract start (close + 1))

/-! Groups are read to their end. -/

theorem QuotedText.closing {text : List Char} (string : QuotedText text) (depth : Int) (back : List Char) :
    closingOffset depth .quoted (text ++ '"' :: back) =
      (closingOffset depth .plain back).map (· + (text.length + 1)) := by
  induction string with
  | done => rfl
  | escaped _ ih =>
    rw [List.cons_append,List.cons_append,closingOffset,if_pos rfl,closingOffset,ih,Option.map_map,
      Option.map_map]
    rfl
  | plain unquoted unescaped _ ih =>
    rw [List.cons_append,closingOffset,if_neg unescaped,if_neg unquoted,ih,Option.map_map]
    rfl

theorem Inside.closing {s : List Char} (inside : Inside s) {depth : Int} (within : 0 < depth)
    (back : List Char) :
    closingOffset depth .plain (s ++ back) = (closingOffset depth .plain back).map (· + s.length) := by
  induction inside generalizing depth back with
  | done => simp
  | plain unquoted unopened unclosed _ ih =>
    rw [List.cons_append,closingOffset,if_neg unquoted,if_neg unopened,if_neg unclosed,ih within,
      Option.map_map]
    rfl
  | quoted string _ ih =>
    rw [List.cons_append,closingOffset,if_pos rfl,List.append_assoc,List.cons_append,string.closing,
      ih within,Option.map_map,Option.map_map]
    congr 1
    funext n
    simp only [Function.comp_apply,List.length_cons,List.length_append]
    omega
  | group _ _ innerIh ih =>
    have deeper : 0 < depth + 1 := by omega
    have open_ : ¬depth + 1 = 1 := by omega
    rw [List.cons_append,closingOffset,if_neg (by decide),if_pos rfl,List.append_assoc,List.cons_append,
      innerIh deeper,closingOffset,if_neg (by decide),if_neg (by decide),if_pos rfl,if_neg open_,
      Int.add_sub_cancel,ih within,Option.map_map,Option.map_map,Option.map_map]
    congr 1
    funext n
    simp only [Function.comp_apply,List.length_cons,List.length_append]
    omega

theorem closingOffset_opening (rest : List Char) :
    closingOffset 0 .plain ('{' :: rest) = (closingOffset 1 .plain rest).map (· + 1) := by
  rw [closingOffset,if_neg (by decide),if_pos rfl]
  rfl

theorem closingOffset_closing (rest : List Char) : closingOffset 1 .plain ('}' :: rest) = some 0 := by
  rw [closingOffset,if_neg (by decide),if_neg (by decide),if_pos rfl,if_pos rfl]

theorem groupBody?_brace (inside : List Char) :
    groupBody? ('{' :: inside) = (closingOffset 1 .plain inside).map (inside.take ·) := by
  rw [groupBody?,matchingBrace?,List.drop_zero,closingOffset_opening,Option.map_map,Option.map_map]
  rfl

theorem IsGroup.closing {s : List Char} (group : IsGroup s) (back : List Char) :
    closingOffset 0 .plain (s ++ back) = some (s.length - 1) := by
  obtain ⟨inner,inside,rfl⟩ := group
  rw [List.cons_append,closingOffset_opening,List.append_assoc,inside.closing (by decide),
    List.singleton_append,closingOffset_closing]
  simp

/-! Where the reader stops, a group ends. -/

theorem Inside.append {s t : List Char} (first : Inside s) (second : Inside t) : Inside (s ++ t) := by
  induction first with
  | done => exact second
  | plain unquoted unopened unclosed _ ih => exact .plain unquoted unopened unclosed ih
  | quoted string _ ih =>
    rw [List.cons_append,List.append_assoc]
    exact .quoted string ih
  | group inside _ _ ih =>
    rw [List.cons_append,List.append_assoc]
    exact .group inside ih

inductive Closes : Nat → List Char → Prop where
  | last {s : List Char} (inside : Inside s) : Closes 1 (s ++ ['}'])
  | next {depth : Nat} {s rest : List Char} (inside : Inside s) (tail : Closes depth rest) :
      Closes (depth + 1) (s ++ '}' :: rest)

def Ahead (depth : Nat) : BraceMode → List Char → Prop
  | .plain,s => Closes depth s
  | .quoted,s => ∃ text rest, QuotedText text ∧ Closes depth rest ∧ s = text ++ '"' :: rest
  | .escaped,s => ∃ c text rest, QuotedText text ∧ Closes depth rest ∧ s = c :: (text ++ '"' :: rest)

theorem Closes.append {depth : Nat} {s t : List Char} (inside : Inside s) (closes : Closes depth t) :
    Closes depth (s ++ t) := by
  cases closes with
  | last more =>
    rw [← List.append_assoc]
    exact .last (inside.append more)
  | next more tail =>
    rw [← List.append_assoc]
    exact .next (inside.append more) tail

theorem Closes.opened {depth : Nat} {s : List Char} (within : 0 < depth) (closes : Closes (depth + 1) s) :
    Closes depth ('{' :: s) := by
  cases closes with
  | last _ => exact absurd within (by decide)
  | next inside tail =>
    -- The opened group is closed by then, and is a part of the inside of the one around it.
    have group := tail.append (Inside.group inside .done)
    simpa using group

theorem Closes.string {depth : Nat} {s : List Char} (ahead : Ahead depth .quoted s) :
    Closes depth ('"' :: s) := by
  obtain ⟨text,rest,string,closes,rfl⟩ := ahead
  have quoted := closes.append (Inside.quoted string .done)
  simpa using quoted

theorem ahead_backslash {depth : Nat} {s : List Char} (ahead : Ahead depth .escaped s) :
    Ahead depth .quoted ('\\' :: s) := by
  obtain ⟨c,text,rest,string,closes,rfl⟩ := ahead
  exact ⟨_,rest,.escaped string,closes,rfl⟩

theorem ahead_escaped (c : Char) {depth : Nat} {s : List Char} (ahead : Ahead depth .quoted s) :
    Ahead depth .escaped (c :: s) := by
  obtain ⟨text,rest,string,closes,rfl⟩ := ahead
  exact ⟨c,text,rest,string,closes,rfl⟩

theorem ahead_quoted {c : Char} (unquoted : c ≠ '"') (unescaped : c ≠ '\\') {depth : Nat} {s : List Char}
    (ahead : Ahead depth .quoted s) : Ahead depth .quoted (c :: s) := by
  obtain ⟨text,rest,string,closes,rfl⟩ := ahead
  exact ⟨_,rest,.plain unquoted unescaped string,closes,rfl⟩

theorem ahead_of_closingOffset {depth : Nat} (within : 0 < depth) {mode : BraceMode} {cs : List Char}
    {k : Nat} (found : closingOffset depth mode cs = some k) :
    k < cs.length ∧ Ahead depth mode (cs.take (k + 1)) := by
  induction cs generalizing depth mode k with
  | nil => cases mode <;> cases found
  | cons c cs ih =>
    -- What is ahead of the characters behind, once the first has been read, makes up what is ahead of both.
    have step {inner : Nat} {next : BraceMode} (deep : 0 < inner)
        (found : (closingOffset inner next cs).map (· + 1) = some k)
        (push : ∀ s, Ahead inner next s → Ahead depth mode (c :: s)) :
        k < (c :: cs).length ∧ Ahead depth mode ((c :: cs).take (k + 1)) := by
      obtain ⟨n,later,rfl⟩ := Option.map_eq_some_iff.mp found
      obtain ⟨bound,ahead⟩ := ih deep later
      exact ⟨Nat.succ_lt_succ bound,push _ ahead⟩
    cases mode with
    | escaped => exact step within found fun _ => ahead_escaped c
    | quoted =>
      rw [closingOffset] at found
      split at found
      · rename_i backslash
        subst backslash
        exact step within found fun _ => ahead_backslash
      · rename_i unescaped
        split at found
        · rename_i quote
          subst quote
          exact step within found fun s closes => ⟨[],s,.done,closes,rfl⟩
        · rename_i unquoted
          exact step within found fun _ => ahead_quoted unquoted unescaped
    | plain =>
      rw [closingOffset] at found
      split at found
      · rename_i quote
        subst quote
        exact step within found fun _ => Closes.string
      · rename_i unquoted
        split at found
        · rename_i opening
          subst opening
          exact step (Nat.succ_pos depth) found fun _ => Closes.opened within
        · rename_i unopened
          split at found
          · rename_i closing
            subst closing
            split at found
            · rename_i outermost
              obtain rfl := Option.some.inj found
              obtain rfl : depth = 1 := by omega
              exact ⟨Nat.succ_pos _,.last .done⟩
            · obtain ⟨outer,rfl⟩ := Nat.exists_eq_add_one.mpr within
              have some_ : 0 < outer := by omega
              have less : ((outer + 1 : Nat) : Int) - 1 = outer := by omega
              rw [less] at found
              exact step some_ found fun _ => Closes.next .done
          · rename_i unclosed
            have char := Inside.plain unquoted unopened unclosed .done
            exact step within found fun _ => Closes.append char

theorem isGroup_of_closingOffset {rest : List Char} {k : Nat}
    (found : closingOffset 0 .plain ('{' :: rest) = some k) :
    k < ('{' :: rest).length ∧ IsGroup (('{' :: rest).take (k + 1)) := by
  rw [closingOffset_opening] at found
  obtain ⟨n,later,rfl⟩ := Option.map_eq_some_iff.mp found
  obtain ⟨bound,closes⟩ : n < rest.length ∧ Closes 1 (rest.take (n + 1)) :=
    ahead_of_closingOffset Nat.one_pos later
  refine ⟨Nat.succ_lt_succ bound,?_⟩
  rw [List.take_succ_cons]
  generalize rest.take (n + 1) = s at closes
  cases closes with
  | last inside => exact ⟨_,inside,rfl⟩
  | next _ tail => cases tail

theorem closingOffset_eq_some_iff {rest : List Char} {k : Nat} :
    closingOffset 0 .plain ('{' :: rest) = some k ↔
      k < ('{' :: rest).length ∧ IsGroup (('{' :: rest).take (k + 1)) := by
  refine ⟨isGroup_of_closingOffset,fun ⟨bound,group⟩ => ?_⟩
  have read := group.closing (('{' :: rest).drop (k + 1))
  rwa [List.take_append_drop,List.length_take_of_le bound] at read

/-! The reader by index. -/

/-- The closing brace as it is looked for by index, two characters on behind a backslash in a string. A
character read outside the text leaves no answer. -/
def searchFrom (text : List Char) (depth : Int) (inString : Bool) (i : Nat) : Option (Option Nat) :=
  if i < text.length then do
    let c ← text[i]?
    if inString then
      if c = '\\' then searchFrom text depth true (i + 2)
      else if c = '"' then searchFrom text depth false (i + 1)
      else searchFrom text depth true (i + 1)
    else if c = '"' then searchFrom text depth true (i + 1)
    else if c = '{' then searchFrom text (depth + 1) false (i + 1)
    else if c = '}' then
      if depth - 1 = 0 then some (some i) else searchFrom text (depth - 1) false (i + 1)
    else searchFrom text depth false (i + 1)
  else some none
termination_by text.length - i

theorem closingOffset_escaped (depth : Int) (cs : List Char) :
    closingOffset depth .escaped cs = (closingOffset depth .quoted (cs.drop 1)).map (· + 1) := by
  cases cs <;> rfl

private theorem map_behind (found : Option Nat) (i : Nat) :
    (found.map (· + 1)).map (· + i) = found.map (· + (i + 1)) := by
  rw [Option.map_map]
  congr 1
  funext n
  exact Nat.add_right_comm n 1 i

theorem searchFrom_eq (text : List Char) (depth : Int) (inString : Bool) (i : Nat) :
    searchFrom text depth inString i =
      some ((closingOffset depth (if inString then .quoted else .plain) (text.drop i)).map (· + i)) := by
  fun_induction searchFrom text depth inString i with
  | case1 depth inString i inside skipped unquoted quoted opened closed =>
    rw [List.getElem?_eq_getElem inside,List.drop_eq_getElem_cons inside]
    generalize text[i] = c
    cases inString with
    | true =>
      simp only [if_true,Option.bind_eq_bind,Option.bind_some,closingOffset]
      split
      · rw [skipped,if_pos rfl,closingOffset_escaped,List.drop_drop,map_behind,map_behind]
      · split
        · rw [unquoted,map_behind]
          rfl
        · rw [quoted,map_behind]
          rfl
    | false =>
      simp only [Bool.false_eq_true,if_false,Option.bind_eq_bind,Option.bind_some,closingOffset]
      split
      · rw [quoted,map_behind]
        rfl
      · split
        · rw [opened,map_behind]
          rfl
        · split
          · by_cases outermost : depth = 1
            · subst outermost
              rw [if_pos rfl,if_pos (by decide)]
              simp
            · rw [if_neg (by omega),if_neg outermost,closed,map_behind]
              rfl
          · rw [unquoted,map_behind]
            rfl
  | case2 depth inString i outside =>
    rw [List.drop_eq_nil_of_le (Nat.not_lt.mp outside)]
    cases inString <;> rfl

/-- From an opening brace on the brace that is found closes a group, and where a group ends the brace is found: each
opening brace starts at most one group, and none is found exactly if no group starts there. A search by index
finds the same without a read outside the text. -/
theorem matching_brace_ends_group (text : List Char) (start : Nat) (opens : text[start]? = some '{') :
    (∀ close, matchingBrace? text start = some close ↔ Spans text start close) ∧
    (∀ close other, Spans text start close → Spans text start other → close = other) ∧
    (matchingBrace? text start = none ↔ ∀ s, s <+: text.drop start → ¬IsGroup s) ∧
    searchFrom text 0 false start = some (matchingBrace? text start) := by
  obtain ⟨inside,brace⟩ := List.getElem?_eq_some_iff.mp opens
  have shape : text.drop start = '{' :: text.drop (start + 1) := by
    rw [List.drop_eq_getElem_cons inside,brace]
  have ends (close : Nat) : matchingBrace? text start = some close ↔ Spans text start close := by
    rw [matchingBrace?,Option.map_eq_some_iff,Spans,List.extract_eq_take_drop,shape]
    simp only [closingOffset_eq_some_iff]
    rw [← shape,List.length_drop]
    constructor
    · rintro ⟨k,⟨bound,group⟩,rfl⟩
      have size : k + start + 1 - start = k + 1 := by omega
      exact ⟨by omega,size.symm ▸ group⟩
    · rintro ⟨bound,group⟩
      have some_ : close + 1 - start ≠ 0 := by
        intro none
        rw [none,List.take_zero] at group
        obtain ⟨_,_,empty⟩ := group
        cases empty
      have size : close + 1 - start = close - start + 1 := by omega
      exact ⟨close - start,⟨by omega,size ▸ group⟩,by omega⟩
  refine ⟨ends,fun close other one another => ?_,?_,searchFrom_eq text 0 false start⟩
  · exact Option.some.inj (((ends close).mpr one).symm.trans ((ends other).mpr another))
  · constructor
    · rintro none s ⟨back,read⟩ group
      rw [matchingBrace?,← read,group.closing] at none
      cases none
    · intro none
      cases found : matchingBrace? text start with
      | none => rfl
      | some close =>
        refine absurd ((ends close).mp found).2 (none _ ?_)
        rw [List.extract_eq_take_drop]
        exact List.take_prefix _ _

def quotedBraces : List Char := "x=\x7bk=\"\x7d\\\"\x7b\";n=\x7b\\\x7d;\x7d;\x7d".toList

def openString : List Char := "\x7b\"\x7d\\".toList

theorem quoted_braces_close_nothing :
    quotedBraces[2]? = some '{' ∧ matchingBrace? quotedBraces 2 = some 18 ∧ Spans quotedBraces 2 18 ∧
      (∀ other, Spans quotedBraces 2 other → other = 18) ∧
      searchFrom quotedBraces 0 false 2 = some (some 18) ∧
    openString[0]? = some '{' ∧ matchingBrace? openString 0 = none ∧
      (∀ s, s <+: openString → ¬IsGroup s) ∧ searchFrom openString 0 false 0 = some none := by
  have opens : quotedBraces[2]? = some '{' := by decide
  have found : matchingBrace? quotedBraces 2 = some 18 := by decide
  have alsoOpens : openString[0]? = some '{' := by decide
  have none : matchingBrace? openString 0 = none := by decide
  obtain ⟨ends,once,_,read⟩ := matching_brace_ends_group quotedBraces 2 opens
  obtain ⟨_,_,nothing,readAlso⟩ := matching_brace_ends_group openString 0 alsoOpens
  have spans := (ends 18).mp found
  exact ⟨opens,found,spans,fun other another => once other 18 another spans,found ▸ read,alsoOpens,
    none,nothing.mp none,none ▸ readAlso⟩

end DepAudit.ProjectFile
