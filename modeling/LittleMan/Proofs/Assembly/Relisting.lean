import LittleMan.Proofs.Assembly.Behind
import LittleMan.Proofs.Assembly.WordCount

/-!
# Listing a program twice

When the printed listing of a program means the same as the program, and when it is at least printed
the same again.

* A parsed listing is parsed from its text again, places apart, exactly if no label is glued to the
  statement before it (`Listing.parse_format_iff`).
* The text is parsed and printed as the same text exactly if every statement `Absorbs` the label
  that is glued to it: what comes of the two is an operand that the opcode admits
  (`Listing.format_parse_format_iff`).

The first rests on the count of words. For the second, texts are compared piece by piece
(`Listing.absorbs_of_text_eq`): the listing that is read has no glued labels, so its text shows what
its statements are, and they can only be those of the first listing with the labels in the operands
(`Listing.exists_unglued`).
-/

namespace LittleMan

/-! ### Comparing texts -/

namespace Lexeme

/-- A word character that begins no comment begins a word, which has the layout so far. -/
theorem ofChars_wordChar {c : Char} (hc : Token.isWordChar c = true) (hslash : c ≠ '/')
    (layout : String) (cs : List Char) :
    ∃ word rest, ofChars layout (c :: cs) =
      (bareWord layout word :: rest, (ofChars layout (c :: cs)).2) := by
  have hslashes : ['/', '/'].isPrefixOf (c :: cs) = false := by
    simp [List.isPrefixOf, hslash.symm]
  have hw := Token.isWord_takeWhile hc hslashes
  have hw' : Token.IsWord (String.ofList ((c :: cs).takeWhile Token.isWordChar)).toList := by
    rwa [String.toList_ofList]
  have hends : Token.EndsWord ((c :: cs).dropWhile Token.isWordChar) := Token.head?_dropWhile
  have hread := ofChars_word hw' hends layout
  rw [String.toList_ofList, List.takeWhile_append_dropWhile] at hread
  exact ⟨_, _, by rw [hread]⟩

end Lexeme

namespace Statement

theorem isWordChar_head_mnemonic (op : Opcode) :
    ∀ c ∈ op.mnemonic.toList.head?, Token.isWordChar c = true ∧ c ≠ '/' := by
  rintro c hc
  cases op <;> cases hc <;> decide

theorem WellFormed.head?_ofChars {s : Statement} (h : s.WellFormed) (rest : List Char) :
    (Lexeme.ofChars "" (s.layout.toList ++ (s.format.toList ++ rest))).1.head?.map Lexeme.layout =
      some s.layout := by
  rw [Lexeme.ofChars_layout h.layout (.inl h.closed), String.empty_append, toList_format, labelText]
  cases hlabel : s.label with
  | some l =>
    simp only [Option.map_some, Option.getD_some, List.append_assoc, List.cons_append]
    rw [Lexeme.ofChars_word (h.label l hlabel).1 (endsWord_tab _)]
    rfl
  | none =>
    obtain ⟨c, cs, hcs⟩ := List.exists_cons_of_ne_nil (isWord_mnemonic s.opcode.value).ne_nil
    obtain ⟨hc, hslash⟩ := isWordChar_head_mnemonic s.opcode.value c (by rw [hcs]; rfl)
    simp only [Option.map_none, Option.getD_none, String.toList_empty, List.nil_append,
      List.cons_append, List.append_assoc, Lexeme.ofChars_tab, hcs]
    obtain ⟨word, words, hread⟩ := Lexeme.ofChars_wordChar hc hslash s.layout
      (cs ++ (s.operandText ++ rest))
    rw [hread]
    rfl

theorem length_mnemonic (op : Opcode) : op.mnemonic.toList.length = 3 := by
  cases op <;> rfl

theorem mnemonic_injective {op op' : Opcode} (h : op.mnemonic.toList = op'.mnemonic.toList) :
    op = op' := by
  have hop := ofWord?_mnemonic op
  rw [String.toList_inj.mp h, ofWord?_mnemonic] at hop
  exact (Option.some.inj hop).symm

/-- **Equal texts begin with equal statements**, up to the operand. -/
theorem eq_of_text_eq {s s' : Statement} (h : s.WellFormed) (h' : s'.WellFormed)
    {rest rest' : List Char}
    (heq : s.layout.toList ++ (s.format.toList ++ rest) =
      s'.layout.toList ++ (s'.format.toList ++ rest')) :
    s.opcode.value = s'.opcode.value ∧ s.operandText ++ rest = s'.operandText ++ rest' := by
  have hlayout : s.layout = s'.layout := by
    have hhead := h.head?_ofChars rest
    rw [heq, h'.head?_ofChars rest'] at hhead
    exact (Option.some.inj hhead).symm
  rw [hlayout, toList_format, toList_format] at heq
  simp only [List.append_assoc, List.cons_append, List.append_cancel_left_eq] at heq
  obtain ⟨-, hmnemonic⟩ := Token.eq_of_append_eq h.labelText_chars h'.labelText_chars
    (endsWord_tab _) (endsWord_tab _) heq
  obtain ⟨hop, hoperand⟩ := List.append_inj (List.cons.inj hmnemonic).2
    ((length_mnemonic _).trans (length_mnemonic _).symm)
  exact ⟨mnemonic_injective hop, hoperand⟩

theorem pushDigit?_mnemonic (op : Opcode) :
    ∀ c ∈ op.mnemonic.toList.head?,
      Decimal.pushDigit? 10 0 c = none ∧ c ≠ '-' ∧ c ≠ '+' ∧ c ≠ '0' := by
  rintro c hc
  cases op <;> cases hc <;> decide

/-- No number begins as a mnemonic does. -/
theorem read_of_append_eq {op : Opcode} {text : String} {rest rest' : List Char}
    (hne : text.toList ≠ []) (h : text.toList ++ rest = op.mnemonic.toList ++ rest') :
    Numeral.read text = .notANumeral := by
  obtain ⟨c, cs, hcs⟩ := List.exists_cons_of_ne_nil hne
  have hc : c ∈ op.mnemonic.toList.head? := by
    have hhead := congrArg List.head? h
    rw [hcs] at hhead
    cases op <;> exact hhead.symm
  obtain ⟨hdigit, hminus, hplus, hzero⟩ := pushDigit?_mnemonic op c hc
  have hsign : Decimal.splitSign (c :: cs) = (false, c :: cs) := by
    rw [Decimal.splitSign]
    · simpa using hminus
    · simpa using hplus
  have hmagnitude : Numeral.magnitude? (c :: cs) = none := by
    unfold Numeral.magnitude?
    split
    · rename_i heq
      exact absurd (List.cons.inj heq).1 hzero
    · rename_i heq
      exact absurd (List.cons.inj heq).1 hzero
    · rw [Decimal.digits?, List.foldlM_cons, hdigit]
      rfl
  rw [Numeral.read, hcs, hsign]
  simp only [hmagnitude]

/-- An operand that may be left out does not begin as a mnemonic does. -/
theorem not_append_eq_of_admits {op : Opcode} (hnone : op.Admits none) {o : Operand}
    (hsome : op.Admits (some o)) (hne : o.text.toList ≠ []) (op' : Opcode)
    (rest rest' : List Char) :
    o.text.toList ++ rest ≠ op'.mnemonic.toList ++ rest' := by
  intro heq
  have hread := read_of_append_eq hne heq
  cases o with
  | number value text =>
    have hvalue : Numeral.read text = .number value := hsome.2
    rw [Operand.text, hvalue] at hread
    cases hread
  | reference label =>
    obtain ⟨htakes, hdirective, -⟩ := hsome
    rcases hnone with h | h
    · rw [h] at htakes
      cases htakes
    · rw [h] at hdirective
      cases hdirective

/-- The characters may begin with a tab only if a mnemonic comes next. -/
def TabBeforeMnemonic (cs : List Char) : Prop :=
  ∀ tail, cs = '\t' :: tail → ∃ (op : Opcode) (rest : List Char), tail = op.mnemonic.toList ++ rest

theorem tabBeforeMnemonic_word {w : List Char} (hw : Token.IsWord w) (rest : List Char) :
    TabBeforeMnemonic (w ++ rest) := by
  intro tail htail
  obtain ⟨c, w, rfl⟩ := List.exists_cons_of_ne_nil hw.ne_nil
  have hc := hw.chars c List.mem_cons_self
  rw [(List.cons.inj htail).1] at hc
  cases hc

/-- **Where the texts behind the mnemonics are equal so are the operands**, with the letters `cs`
that are glued to the first one. -/
theorem operand_of_text_eq {s s' : Statement} (h : s.WellFormed) (h' : s'.WellFormed)
    (hop : s.opcode.value = s'.opcode.value) {cs rest rest' : List Char}
    (hcs : ∀ c ∈ cs, Token.isWordChar c = true) (hr : Token.EndsWord rest)
    (hr' : Token.EndsWord rest')
    (htab : TabBeforeMnemonic (cs ++ rest)) (htab' : TabBeforeMnemonic rest')
    (heq : s.operandText ++ (cs ++ rest) = s'.operandText ++ rest') :
    rest = rest' ∧ (cs ≠ [] → ∃ o ∈ s.operand, ∃ o' ∈ s'.operand,
      o'.value.text.toList = o.value.text.toList ++ cs) := by
  have hadmits := h.operand
  have hadmits' := h'.operand
  rw [← hop] at hadmits'
  unfold operandText at heq
  cases hoperand : s.operand with
  | none =>
    rw [hoperand] at heq hadmits
    cases hoperand' : s'.operand with
    | none =>
      rw [hoperand'] at heq
      obtain ⟨rfl, hrest⟩ := Token.eq_of_append_eq hcs (List.forall_mem_nil _) hr hr' heq
      exact ⟨hrest, fun hne => absurd rfl hne⟩
    | some o' =>
      rw [hoperand'] at heq hadmits'
      obtain ⟨op, after, hmnemonic⟩ := htab _ heq
      exact absurd hmnemonic (not_append_eq_of_admits hadmits hadmits'
        (h'.word o' hoperand').ne_nil op rest' after)
  | some o =>
    rw [hoperand] at heq hadmits
    have hword := h.word o hoperand
    cases hoperand' : s'.operand with
    | none =>
      rw [hoperand'] at heq hadmits'
      obtain ⟨op, after, hmnemonic⟩ := htab' _ heq.symm
      exact absurd hmnemonic (not_append_eq_of_admits hadmits' hadmits hword.ne_nil op _ after)
    | some o' =>
      rw [hoperand'] at heq
      have hchars : ∀ c ∈ o.value.text.toList ++ cs, Token.isWordChar c = true :=
        List.forall_mem_append.mpr ⟨hword.chars, hcs⟩
      rw [List.cons_append, List.cons_append, List.cons.injEq, ← List.append_assoc] at heq
      obtain ⟨htext, hrest⟩ :=
        Token.eq_of_append_eq hchars (h'.word o' hoperand').chars hr hr' heq.2
      exact ⟨hrest, fun _ => ⟨o, rfl, o', rfl, htext.symm⟩⟩

/-! ### Absorbed labels -/

/-- Whether the label, written right behind the statement, makes a longer operand of its operand:
the statement has one, the two together begin no comment, and they are either a number that fits
into a word or the name of a label, unless the opcode takes numbers only. -/
def Absorbs (s : Statement) (label : String) : Prop :=
  match s.operand with
  | none => False
  | some o =>
    ['/', '/'].isPrefixOf (o.value.text ++ label).toList = false ∧
      match Numeral.read (o.value.text ++ label) with
      | .number _ => True
      | .tooLarge => False
      | .notANumeral => s.opcode.value.isDirective = false

instance (s : Statement) (label : String) : Decidable (s.Absorbs label) := by
  unfold Absorbs
  split
  · exact inferInstance
  · split <;> exact inferInstance

/-- The second statement has no label glued to the first, or the first absorbs it. -/
def AbsorbsLabelOf (s t : Statement) : Prop :=
  ∀ l ∈ t.label, t.layout = "" → s.Absorbs l.value

theorem apart_unlabelled {t u : Statement} : t.unlabelled.Apart u ↔ t.Apart u := Iff.rfl

theorem absorbsLabelOf_unlabelled {t u : Statement} :
    t.unlabelled.AbsorbsLabelOf u ↔ t.AbsorbsLabelOf u := Iff.rfl

/-- A statement absorbs a label if there is an operand that is written as the two are. -/
theorem absorbs_of_operand {s : Statement} {label : String} {o : Located Operand}
    (ho : s.operand = some o) {o' : Operand} (htext : o'.text = o.value.text ++ label)
    (hword : Token.IsWord o'.text.toList) (hadmits : s.opcode.value.Admits (some o')) :
    s.Absorbs label := by
  simp only [Absorbs, ho, ← htext]
  refine ⟨hword.noComment, ?_⟩
  cases o' with
  | number value text =>
    obtain ⟨-, hread⟩ := hadmits
    rw [Operand.text, hread]
    trivial
  | reference label =>
    obtain ⟨-, hdirective, hread⟩ := hadmits
    rw [Operand.text, hread]
    exact hdirective

/-- The operand that a statement has with the label it absorbs. -/
theorem exists_operand_of_absorbs {s : Statement} (h : s.WellFormed) {label : String}
    (hlabel : Token.IsWord label.toList) (habsorbs : s.Absorbs label) :
    ∃ o ∈ s.operand, ∃ o' : Operand, o'.text = o.value.text ++ label ∧
      Token.IsWord o'.text.toList ∧ s.opcode.value.Admits (some o') := by
  unfold Absorbs at habsorbs
  have hadmits := h.operand
  cases ho : s.operand with
  | none => rw [ho] at habsorbs; exact habsorbs.elim
  | some o =>
    rw [ho] at habsorbs hadmits
    obtain ⟨hslashes, hread⟩ := habsorbs
    have htakes : s.opcode.value.takesOperand = true := by
      obtain ⟨value | label, span⟩ := o
      · exact hadmits.1
      · exact hadmits.1
    have hword : Token.IsWord (o.value.text ++ label).toList := by
      refine ⟨?_, ?_, hslashes⟩
      · simp [hlabel.ne_nil]
      · rw [String.toList_append]
        exact List.forall_mem_append.mpr ⟨(h.word o ho).chars, hlabel.chars⟩
    cases hnumeral : Numeral.read (o.value.text ++ label) with
    | number value => exact ⟨o, rfl, .number value _, rfl, hword, htakes, hnumeral⟩
    | tooLarge => rw [hnumeral] at hread; exact hread.elim
    | notANumeral =>
      rw [hnumeral] at hread
      exact ⟨o, rfl, .reference _, rfl, hword, htakes, hread, hnumeral⟩

end Statement

namespace Listing

open Statement

/-- What follows a tab between two statements is a mnemonic. -/
theorem tabBeforeMnemonic_text {ss : List Statement} {trailing : String}
    (h : ∀ s ∈ ss, s.WellFormed) (hglued : ∀ s ∈ ss.head?, ¬ s.Glued)
    (htrailing : Layout.Regular trailing) :
    TabBeforeMnemonic (text ss trailing) := by
  intro tail heq
  cases ss with
  | nil =>
    rw [text_nil] at heq
    have htab := htrailing.endsComment '\t' (by rw [heq]; rfl)
    cases htab
  | cons s ss =>
    have hs := h s List.mem_cons_self
    rw [text_cons] at heq
    by_cases hlayout : s.layout = ""
    · have hnone : s.label.isSome ≠ true := fun hl => hglued s rfl ⟨hl, hlayout⟩
      rw [hlayout, toList_format, labelText, Option.not_isSome_iff_eq_none.mp hnone] at heq
      simp only [String.toList_empty, List.nil_append, Option.map_none, Option.getD_none,
        List.cons_append, List.append_assoc, List.cons.injEq, true_and] at heq
      exact ⟨_, _, heq.symm⟩
    · obtain ⟨c, cs', hcs⟩ := List.exists_cons_of_ne_nil (mt String.toList_eq_nil_iff.mp hlayout)
      have hnewline := hs.layout.endsComment c (by rw [hcs]; rfl)
      rw [hcs, hnewline] at heq
      cases (List.cons.inj heq).1

/-- **A text that is also printed without glued labels is one in which they are absorbed.** -/
theorem absorbs_of_text_eq {s : Statement} {ss ss' : List Statement} {trailing trailing' : String}
    (h : ∀ t ∈ s :: ss, t.WellFormed) (h' : ∀ t ∈ ss', t.WellFormed)
    (hglued' : ∀ t ∈ ss'.tail, ¬ t.Glued) (htrailing : Layout.Regular trailing)
    (htrailing' : Layout.Regular trailing')
    (heq : text (s :: ss) trailing = text ss' trailing') :
    (s :: ss).IsChain AbsorbsLabelOf := by
  induction ss generalizing s ss' with
  | nil => exact .singleton s
  | cons t ss ih =>
    obtain ⟨hs, hss⟩ := List.forall_mem_cons.mp h
    have ht := hss t List.mem_cons_self
    cases ss' with
    | nil =>
      -- a layout is no statement
      have hhead := hs.head?_ofChars (text (t :: ss) trailing)
      have hread := ofChars_text h' hglued' htrailing'
      rw [← text_cons, heq, hread] at hhead
      cases hhead
    | cons s' ss' =>
      obtain ⟨hs', hrest'⟩ := List.forall_mem_cons.mp h'
      have hhead' : ∀ u ∈ ss'.head?, ¬ u.Glued := fun u hu =>
        hglued' u (List.mem_of_mem_head? hu)
      have htail' : ∀ u ∈ ss'.tail, ¬ u.Glued := fun u hu => hglued' u (List.mem_of_mem_tail hu)
      have hends' := endsWord_text hrest' hhead' htrailing'
      have htab' := tabBeforeMnemonic_text hrest' hhead' htrailing'
      rw [text_cons s, text_cons s'] at heq
      obtain ⟨hop, hoperand⟩ := eq_of_text_eq hs hs' heq
      by_cases hglued : t.Glued
      · obtain ⟨l, hl⟩ := Option.isSome_iff_exists.mp hglued.1
        have hword := (ht.label l hl).1
        have hends := endsWord_text_unlabelled hss htrailing
        rw [text_of_glued hl hglued.2] at hoperand
        obtain ⟨hrest, habsorbed⟩ := operand_of_text_eq hs hs' hop hword.chars hends hends'
          (tabBeforeMnemonic_word hword _) htab' hoperand
        obtain ⟨o, ho, o', ho', htext⟩ := habsorbed hword.ne_nil
        refine .cons_cons (fun l' hl' _ => ?_) ?_
        · obtain rfl : l = l' := Option.some.inj (hl.symm.trans hl')
          have hadmits' := hs'.operand
          rw [← hop, Option.mem_def.mp ho'] at hadmits'
          exact absorbs_of_operand ho (String.toList_inj.mp (by rw [htext, String.toList_append]))
            (hs'.word o' ho') hadmits'
        · have hchain := ih (wellFormed_unlabelled hss) hrest' htail' hrest
          exact hchain.imp_head absorbsLabelOf_unlabelled.mp
      · have hhead : ∀ u ∈ (t :: ss).head?, ¬ u.Glued := fun u hu => by cases hu; exact hglued
        have hends := endsWord_text hss hhead htrailing
        obtain ⟨hrest, -⟩ := operand_of_text_eq hs hs' hop (List.forall_mem_nil _) hends hends'
          (tabBeforeMnemonic_text hss hhead htrailing) htab' hoperand
        refine .cons_cons (fun l hl hlayout => absurd ⟨?_, hlayout⟩ hglued)
          (ih hss hrest' htail' hrest)
        rw [Option.mem_def.mp hl]
        rfl

/-- The statements `t :: ts` are printed as `s :: ss` are, and none of their labels is glued to a
statement. -/
structure Unglued (trailing : String) (s : Statement) (ss : List Statement) (t : Statement)
    (ts : List Statement) : Prop where
  /-- The first label is kept, -/
  label : t.label = s.label
  /-- and so is the layout before it. -/
  layout : t.layout = s.layout
  /-- The statements can stand in a source. -/
  statements : ∀ u ∈ t :: ts, u.WellFormed
  /-- No statement takes the label of the next one. -/
  apart : (t :: ts).IsChain Apart
  /-- No label is glued to a statement. -/
  unglued : ∀ u ∈ ts, ¬ u.Glued
  /-- There are as many statements, at the same addresses. -/
  addresses : (t :: ts).map Statement.address = (s :: ss).map Statement.address
  /-- The text is the same. -/
  text : text (t :: ts) trailing = text (s :: ss) trailing

/-- **Absorbed labels are printed without gluing as well**: as the ends of operands. -/
theorem exists_unglued {s : Statement} {ss : List Statement} (trailing : String)
    (h : ∀ t ∈ s :: ss, t.WellFormed) (hapart : (s :: ss).IsChain Apart)
    (habsorbs : (s :: ss).IsChain AbsorbsLabelOf) : ∃ t ts, Unglued trailing s ss t ts := by
  induction ss generalizing s with
  | nil =>
    exact ⟨s, [], {
      label := rfl
      layout := rfl
      statements := h
      apart := hapart
      unglued := List.forall_mem_nil _
      addresses := rfl
      text := rfl }⟩
  | cons t ss ih =>
    obtain ⟨hs, hss⟩ := List.forall_mem_cons.mp h
    obtain ⟨habsorb, habsorbs⟩ := List.isChain_cons_cons.mp habsorbs
    obtain ⟨hwants, hapart⟩ := List.isChain_cons_cons.mp hapart
    by_cases hglued : t.Glued
    · -- the label goes into the operand, and the statement goes on without it
      obtain ⟨l, hl⟩ := Option.isSome_iff_exists.mp hglued.1
      have hword := ((hss t List.mem_cons_self).label l hl).1
      obtain ⟨o, ho, o', htext, hword', hadmits⟩ :=
        exists_operand_of_absorbs hs hword (habsorb l hl hglued.2)
      obtain ⟨u, us, hu⟩ := ih (wellFormed_unlabelled hss)
        (hapart.imp_head apart_unlabelled.mpr) (habsorbs.imp_head absorbsLabelOf_unlabelled.mpr)
      have hnone : u.label = none := hu.label
      refine ⟨{ s with operand := some ⟨o', o.span⟩ }, u :: us, {
        label := rfl
        layout := rfl
        statements := List.forall_mem_cons.mpr ⟨?_, hu.statements⟩
        apart := .cons_cons (fun l' hl' => ?_) hu.apart
        unglued := List.forall_mem_cons.mpr ⟨fun hg => ?_, hu.unglued⟩
        addresses := ?_
        text := ?_ }⟩
      · exact { hs with
          word := fun x hx => by cases hx; exact hword'
          operand := hadmits }
      · rw [hnone] at hl'
        cases hl'
      · rw [Glued, hnone] at hg
        cases hg.1
      · rw [List.map_cons, hu.addresses]
        rfl
      · rw [text_cons, text_cons s, text_of_glued hl hglued.2, hu.text, toList_format,
          toList_format]
        simp [labelText, operandText, Option.mem_def.mp ho, htext]
    · obtain ⟨u, us, hu⟩ := ih hss hapart habsorbs
      refine ⟨s, u :: us, {
        label := rfl
        layout := rfl
        statements := List.forall_mem_cons.mpr ⟨hs, hu.statements⟩
        apart := .cons_cons (fun l hl => ?_) hu.apart
        unglued := List.forall_mem_cons.mpr ⟨fun hg => ?_, hu.unglued⟩
        addresses := ?_
        text := ?_ }⟩
      · rw [hu.label] at hl
        exact hwants l hl
      · rw [Glued, hu.label, hu.layout] at hg
        exact hglued hg
      · rw [List.map_cons, hu.addresses]
        rfl
      · rw [text_cons, text_cons s (t :: ss), hu.text]

/-! ### The listing of a listing -/

/-- **A parsed listing is read back from its text, places apart, exactly if every label but that of
the first statement has a layout before it.** What is read back is assembled to the same words, or
refused for the same reason. -/
theorem parse_format_iff {source : String} {l : Listing} (h : parse source = .ok l) :
    ((∃ l', parse l.format = .ok l' ∧ l'.bare = l.bare) ↔
      ∀ s ∈ l.statements.tail, s.label.isSome → s.layout ≠ "") ∧
    ∀ l', parse l.format = .ok l' → l'.bare = l.bare → ∀ policy,
      movedResult nowhere Program.words (l'.assemble policy) =
        movedResult nowhere Program.words (l.assemble policy) := by
  have hl := wellFormed_of_parse h
  refine ⟨⟨?_, ?_⟩, ?_⟩
  · rintro ⟨l', hl', hbare⟩ s hs hlabel hlayout
    rw [← format_bare, ← hbare, format_bare] at hl'
    have hglued : ∀ t ∈ l'.bare.statements.tail, ¬ t.Glued := by
      intro t ht
      rw [bare, ← List.map_tail] at ht
      obtain ⟨t', ht', rfl⟩ := List.mem_map.mp ht
      intro hg
      exact unglued_of_parse_format hl' t' ht' (glued_bare.mp hg)
    rw [hbare, bare, ← List.map_tail] at hglued
    exact hglued _ (List.mem_map_of_mem hs) (glued_bare.mpr ⟨hlabel, hlayout⟩)
  · intro hlayouts
    exact parse_format_of_unglued hl fun s hs hg => hlayouts s hs hg.1 hg.2
  · intro l' hl' hbare policy
    have haddresses := hl.addresses
    have haddresses' := (wellFormed_of_parse hl').addresses
    rw [← List.range_eq_range'] at haddresses haddresses'
    rw [← assemble_bare policy haddresses, ← assemble_bare policy haddresses', hbare]

/-- The label of the second line stands after a line break and a comment, so this listing is read
back. -/
theorem parse_format_of_lines :
    let l : Listing := ⟨[⟨0, some ⟨"a", ⟨0, 1⟩⟩, ⟨.inp, ⟨2, 5⟩⟩, none, ""⟩,
      ⟨1, some ⟨"b", ⟨9, 10⟩⟩, ⟨.bra, ⟨11, 14⟩⟩, some ⟨.reference "a", ⟨15, 16⟩⟩, "\n//\n"⟩], ""⟩
    parse "a INP //\nb BRA a" = .ok l ∧ ∃ l', parse l.format = .ok l' ∧ l'.bare = l.bare := by
  intro l
  have hparse : parse "a INP //\nb BRA a" = .ok l := by decide +kernel
  exact ⟨hparse, (parse_format_iff hparse).1.mpr (by decide)⟩

/-- **The text of a parsed listing is parsed and printed as the same text exactly if every label
that is glued to a statement is absorbed by it.** -/
theorem format_parse_format_iff {source : String} {l : Listing} (h : parse source = .ok l) :
    (∃ l', parse l.format = .ok l' ∧ l'.format = l.format) ↔
      l.statements.IsChain AbsorbsLabelOf := by
  have hl := wellFormed_of_parse h
  constructor
  · rintro ⟨l', hl', hformat⟩
    have hwf := wellFormed_of_parse hl'
    rw [← hformat] at hl'
    have hglued := unglued_of_parse_format hl'
    have htext : text l.statements l.trailing = text l'.statements l'.trailing :=
      congrArg String.toList hformat.symm
    cases hss : l.statements with
    | nil => exact .nil
    | cons s ss =>
      rw [hss] at htext
      exact absorbs_of_text_eq (hss ▸ hl.statements) hwf.statements hglued hl.trailing
        hwf.trailing htext
  · intro habsorbs
    obtain ⟨ss, trailing⟩ := l
    cases ss with
    | nil =>
      obtain ⟨l', hl', hbare⟩ := parse_format_of_unglued hl (by simp)
      exact ⟨l', hl', by rw [← format_bare, hbare, format_bare]⟩
    | cons s ss =>
      obtain ⟨t, ts, ht⟩ := exists_unglued trailing hl.statements hl.apart habsorbs
      have hformat : format ⟨t :: ts, trailing⟩ = format ⟨s :: ss, trailing⟩ :=
        String.toList_inj.mp ht.text
      have hlength : (t :: ts).length = (s :: ss).length := by
        simpa using congrArg List.length ht.addresses
      have hwf : WellFormed ⟨t :: ts, trailing⟩ := {
        statements := ht.statements
        apart := ht.apart
        addresses := ht.addresses.trans (hl.addresses.trans (by rw [hlength]))
        trailing := hl.trailing }
      obtain ⟨l', hl', hbare⟩ := parse_format_of_unglued hwf ht.unglued
      rw [hformat] at hl'
      exact ⟨l', hl', by rw [← format_bare, hbare, format_bare, hformat]⟩

/-- The label of the second statement becomes the last digit of the number before it: the listing
means something else now, but stays the same from then on. -/
theorem format_parse_format_of_number :
    let l : Listing := ⟨[⟨0, none, ⟨.lda, ⟨0, 3⟩⟩, some ⟨.number 1 "1", ⟨4, 5⟩⟩, ""⟩,
      ⟨1, some ⟨"2", ⟨6, 7⟩⟩, ⟨.hlt, ⟨8, 11⟩⟩, none, ""⟩], ""⟩
    parse "LDA 1 2 HLT" = .ok l ∧ ∃ l', parse l.format = .ok l' ∧ l'.format = l.format := by
  intro l
  have hparse : parse "LDA 1 2 HLT" = .ok l := by decide +kernel
  refine ⟨hparse, (format_parse_format_iff hparse).mpr (.cons_cons ?_ (.singleton _))⟩
  intro label hlabel _
  cases hlabel
  decide

/-- A listing does not always print as itself: here the label becomes the end of a mnemonic, which
makes a label of it. -/
theorem not_format_parse_format : ∃ l, parse "HLT a HLT" = .ok l ∧
    ¬ ∃ l', parse l.format = .ok l' ∧ l'.format = l.format := by
  refine ⟨⟨[⟨0, none, ⟨.hlt, ⟨0, 3⟩⟩, none, ""⟩,
    ⟨1, some ⟨"a", ⟨4, 5⟩⟩, ⟨.hlt, ⟨6, 9⟩⟩, none, ""⟩], ""⟩, by decide +kernel, ?_⟩
  rintro ⟨l', hl', hformat⟩
  have hread : parse "\tHLTa\tHLT" =
      .ok ⟨[⟨0, some ⟨"HLTa", ⟨1, 5⟩⟩, ⟨.hlt, ⟨6, 9⟩⟩, none, ""⟩], ""⟩ := by decide +kernel
  obtain rfl := Except.ok.inj (hread.symm.trans hl')
  revert hformat
  decide +kernel

end Listing

end LittleMan
