import LittleMan.Proofs.Assembly.LongestMatch

/-!
# Where tokens stand

The tokens of a text stand one behind the other (`Token.inOrder_scan`), each of them where its
characters do (`Token.standsIn_of_mem_scan`). So a character of the text stands inside of a token or
outside of all of them (`Token.StandsIn.mem_or_apart`), and outside stand blanks only, all of them
but those in comments (`Token.apart_iff`).
-/

namespace LittleMan

/-! ### Tokens in order -/

namespace Token

/-- The tokens stand one behind the other, and none of them is empty. -/
structure InOrder (tokens : List (Located Token)) : Prop where
  /-- A token ends before the next ones begin. -/
  pairwise : tokens.Pairwise fun t u => t.span.stop ≤ u.span.start
  /-- A token ends behind its start. -/
  start_lt_stop : ∀ t ∈ tokens, t.span.start < t.span.stop

theorem inOrder_nil : InOrder [] := ⟨.nil, by simp⟩

theorem InOrder.cons {t : Located Token} {tokens : List (Located Token)} (h : InOrder tokens)
    (ht : t.span.start < t.span.stop) (hbehind : ∀ u ∈ tokens, t.span.stop ≤ u.span.start) :
    InOrder (t :: tokens) :=
  ⟨.cons hbehind h.pairwise, List.forall_mem_cons.mpr ⟨ht, h.start_lt_stop⟩⟩

theorem inOrder_append {ts us : List (Located Token)} :
    InOrder (ts ++ us) ↔
      InOrder ts ∧ InOrder us ∧ ∀ t ∈ ts, ∀ u ∈ us, t.span.stop ≤ u.span.start := by
  constructor
  · rintro ⟨hpairwise, hne⟩
    obtain ⟨hts, hus, hbetween⟩ := List.pairwise_append.mp hpairwise
    obtain ⟨hnets, hneus⟩ := List.forall_mem_append.mp hne
    exact ⟨⟨hts, hnets⟩, ⟨hus, hneus⟩, hbetween⟩
  · rintro ⟨⟨hts, hnets⟩, ⟨hus, hneus⟩, hbetween⟩
    exact ⟨List.pairwise_append.mpr ⟨hts, hus, hbetween⟩,
      List.forall_mem_append.mpr ⟨hnets, hneus⟩⟩

theorem InOrder.start_le {t : Located Token} {tokens : List (Located Token)}
    (h : InOrder (t :: tokens)) : ∀ u ∈ t :: tokens, t.span.start ≤ u.span.start := by
  have hpairwise := List.pairwise_cons.mp h.pairwise
  refine List.forall_mem_cons.mpr ⟨Nat.le_refl _, fun u hu => ?_⟩
  exact Nat.le_trans (Nat.le_of_lt (h.start_lt_stop t List.mem_cons_self)) (hpairwise.1 u hu)

theorem InOrder.le_stop {t : Located Token} {tokens : List (Located Token)} (h : InOrder tokens)
    (ht : tokens.getLast? = some t) : ∀ u ∈ tokens, u.span.stop ≤ t.span.stop := by
  obtain ⟨front, rfl⟩ := List.getLast?_eq_some_iff.mp ht
  obtain ⟨-, hlast, hbetween⟩ := inOrder_append.mp h
  intro u hu
  rcases List.mem_append.mp hu with hu | hu
  · exact Nat.le_trans (hbetween u hu t (List.mem_singleton_self t))
      (Nat.le_of_lt (hlast.start_lt_stop t (List.mem_singleton_self t)))
  · rw [List.mem_singleton.mp hu]

/-- **The tokens of a text stand in order**, all of them behind its start. -/
theorem inOrder_scan (offset : Nat) (cs : List Char) :
    InOrder (scan offset cs) ∧ ∀ t ∈ scan offset cs, offset ≤ t.span.start := by
  induction offset, cs using scan.induct with
  | case1 offset =>
    rw [scan_nil]
    exact ⟨inOrder_nil, by simp⟩
  | case2 offset cs ih =>
    obtain ⟨horder, hbehind⟩ := ih
    rw [scan_newline]
    exact ⟨horder.cons (Nat.lt_succ_self offset) hbehind, List.forall_mem_cons.mpr
      ⟨Nat.le_refl _, fun t ht => Nat.le_of_succ_le (hbehind t ht)⟩⟩
  | case3 offset c cs hn hc read stop ih =>
    obtain ⟨horder, hbehind⟩ := ih
    have hne : read ≠ [] := by
      intro hnil
      have hlt := length_afterLexeme_lt cs hc
      have happend := lexeme_append_afterLexeme (c :: cs)
      rw [show lexeme (c :: cs) = [] from hnil, List.nil_append] at happend
      rw [happend] at hlt
      exact Nat.lt_irrefl _ hlt
    have hlt : offset < stop := Nat.lt_add_of_pos_right (Source.byteSize_pos hne)
    rw [scan_wordChar hc]
    exact ⟨horder.cons hlt hbehind, List.forall_mem_cons.mpr
      ⟨Nat.le_refl _, fun t ht => Nat.le_trans (Nat.le_of_lt hlt) (hbehind t ht)⟩⟩
  | case4 offset c cs hn hc ih =>
    rw [scan_blank (by simpa using hc) hn]
    exact ⟨ih.1, fun t ht => Nat.le_trans (Nat.le_add_right _ _) (ih.2 t ht)⟩

/-! ### Characters of tokens -/

/-- The token stands where its characters do, in a text that begins at byte `offset`. -/
def StandsIn (offset : Nat) (cs : List Char) (t : Located Token) : Prop :=
  ∃ before after, cs = before ++ (t.value.text.toList ++ after) ∧
    t.span.start = offset + Source.byteSize before ∧
    t.span.stop = t.span.start + Source.byteSize t.value.text.toList

theorem StandsIn.append {offset : Nat} {cs : List Char} {t : Located Token} (front : List Char)
    (h : StandsIn (offset + Source.byteSize front) cs t) : StandsIn offset (front ++ cs) t := by
  obtain ⟨before, after, rfl, hstart, hstop⟩ := h
  refine ⟨front ++ before, after, (List.append_assoc ..).symm, ?_, hstop⟩
  rw [hstart, Source.byteSize_append, Nat.add_assoc]

/-- **Every token stands where its characters do.** -/
theorem standsIn_of_mem_scan (offset : Nat) (cs : List Char) :
    ∀ t ∈ scan offset cs, StandsIn offset cs t := by
  induction cs using text_induction generalizing offset with
  | nil => simp
  | newline cs ih =>
    rw [scan_newline]
    refine List.forall_mem_cons.mpr ⟨⟨[], cs, ?_, rfl, ?_⟩,
      fun t ht => (ih (offset + 1) t ht).append ['\n']⟩ <;> rw [text] <;> rfl
  | blank c cs hc hn ih =>
    rw [scan_blank hc hn]
    exact fun t ht => (ih (offset + c.utf8Size) t ht).append [c]
  | word w rest hw hr ih =>
    rw [scan_word hw hr]
    refine List.forall_mem_cons.mpr ⟨⟨[], rest, ?_, rfl, ?_⟩, fun t ht => (ih _ t ht).append w⟩ <;>
      simp [text]
  | comment note rest hnote hr ih =>
    rw [scan_comment hnote hr]
    refine List.forall_mem_cons.mpr ⟨⟨[], rest, ?_, rfl, ?_⟩,
      fun t ht => (ih _ t ht).append note⟩ <;> simp [text]

/-- The characters of a token are the part of the source that its span names. -/
theorem text?_of_mem_ofSource {source : String} {t : Located Token} (h : t ∈ ofSource source) :
    t.span.text? source = some t.value.text := by
  obtain ⟨before, after, hsource, hstart, hstop⟩ := standsIn_of_mem_scan 0 source.toList t h
  exact Span.text?_eq_some_iff.mpr ⟨before, after, hsource, by omega, hstop.symm⟩

end Token

/-! ### Characters outside of tokens -/

/-- The first span lies inside of the second. -/
def Span.Within (s t : Span) : Prop := t.start ≤ s.start ∧ s.stop ≤ t.stop

/-- The spans have no byte in common. -/
def Span.Apart (s t : Span) : Prop := s.stop ≤ t.start ∨ t.stop ≤ s.start

instance (s t : Span) : Decidable (s.Within t) := inferInstanceAs (Decidable (_ ∧ _))

instance (s t : Span) : Decidable (s.Apart t) := inferInstanceAs (Decidable (_ ∨ _))

/-- The bytes of a character, in a text that begins at byte `offset`, behind the characters
`before`. -/
def Source.place (offset : Nat) (before : List Char) (c : Char) : Span :=
  ⟨offset + byteSize before, offset + byteSize before + c.utf8Size⟩

theorem Source.mem_parts {before after front rest : List Char} {c : Char}
    (h : before ++ c :: after = front ++ rest) :
    (∃ more, front = before ++ c :: more) ∨
      ∃ more, before = front ++ more ∧ rest = more ++ c :: after := by
  rcases List.append_eq_append_iff.mp h with ⟨more, rfl, hmore⟩ | ⟨more, rfl, hmore⟩
  · cases more with
    | nil => exact .inr ⟨[], by simp, hmore.symm⟩
    | cons d more =>
      obtain ⟨rfl, -⟩ := List.cons.inj hmore
      exact .inl ⟨more, rfl⟩
  · exact .inr ⟨more, rfl, hmore⟩

theorem Source.place_append (offset : Nat) (front before : List Char) (c : Char) :
    place offset (front ++ before) c = place (offset + byteSize front) before c := by
  simp only [place, byteSize_append, Nat.add_assoc]

theorem Source.within_of_mem {offset : Nat} {front before after : List Char} {c : Char} :
    (place offset (front ++ before) c).Within ⟨offset + byteSize front,
      offset + byteSize front + byteSize (before ++ c :: after)⟩ := by
  simp only [place, Span.Within, byteSize_append, byteSize_cons]
  omega

theorem Span.Within.not_apart {offset : Nat} {before : List Char} {c : Char} {t : Span}
    (h : (Source.place offset before c).Within t) : ¬ (Source.place offset before c).Apart t := by
  have hpos := c.utf8Size_pos
  obtain ⟨hstart, hstop⟩ := h
  simp only [Source.place, Span.Apart] at *
  omega

namespace Token

/-- A character is one of the token and stands within it, or it stands outside of it. -/
theorem StandsIn.mem_or_apart {offset : Nat} {before after : List Char} {c : Char}
    {t : Located Token} (h : StandsIn offset (before ++ c :: after) t) :
    (c ∈ t.value.text.toList ∧ (Source.place offset before c).Within t.span) ∨
      (Source.place offset before c).Apart t.span := by
  obtain ⟨front, behind, heq, hstart, hstop⟩ := h
  have hspan : t.span = ⟨offset + Source.byteSize front,
      offset + Source.byteSize front + Source.byteSize t.value.text.toList⟩ := by
    rw [← hstart, ← hstop]
  rw [hspan]
  rcases Source.mem_parts heq with ⟨more, rfl⟩ | ⟨more, rfl, hmore⟩
  · refine .inr (.inl ?_)
    simp only [Source.place, Source.byteSize_append, Source.byteSize_cons]
    omega
  rcases Source.mem_parts hmore.symm with ⟨tail, htext⟩ | ⟨tail, rfl, -⟩
  · rw [htext]
    exact .inl ⟨by simp, Source.within_of_mem⟩
  · refine .inr (.inr ?_)
    simp only [Source.place, Source.byteSize_append]
    omega

/-- Every character of the text, which begins at byte `offset`, is a blank or stands within one of
the tokens. -/
def Covers (offset : Nat) (cs : List Char) (tokens : List (Located Token)) : Prop :=
  ∀ before c after, cs = before ++ c :: after →
    IsBlank c ∨ ∃ t ∈ tokens, (Source.place offset before c).Within t.span

theorem Covers.append {offset : Nat} {front rest : List Char} {tokens : List (Located Token)}
    (hfront : Covers offset front tokens)
    (hrest : Covers (offset + Source.byteSize front) rest tokens) :
    Covers offset (front ++ rest) tokens := by
  intro before c after h
  rcases Source.mem_parts h.symm with ⟨more, rfl⟩ | ⟨more, rfl, hmore⟩
  · exact hfront before c more rfl
  · rw [Source.place_append]
    exact hrest more c after hmore

theorem Covers.cons {offset : Nat} {cs : List Char} {tokens : List (Located Token)}
    (h : Covers offset cs tokens) (t : Located Token) : Covers offset cs (t :: tokens) :=
  fun before c after heq => (h before c after heq).imp_right fun ⟨u, hu, hwithin⟩ =>
    ⟨u, List.mem_cons_of_mem t hu, hwithin⟩

theorem covers_token (offset : Nat) (cs : List Char) (token : Token)
    (tokens : List (Located Token)) :
    Covers offset cs (⟨token, ⟨offset, offset + Source.byteSize cs⟩⟩ :: tokens) := by
  rintro before c after rfl
  have hwithin : (Source.place offset ([] ++ before) c).Within
      ⟨offset, offset + Source.byteSize (before ++ c :: after)⟩ := Source.within_of_mem
  exact .inr ⟨_, List.mem_cons_self, hwithin⟩

/-- **The tokens of a text leave blanks only.** -/
theorem covers_scan (offset : Nat) (cs : List Char) : Covers offset cs (scan offset cs) := by
  induction cs using text_induction generalizing offset with
  | nil =>
    intro before c after h
    simp at h
  | newline cs ih =>
    rw [scan_newline]
    exact (covers_token offset ['\n'] newline _).append ((ih (offset + 1)).cons _)
  | blank c cs hc hn ih =>
    rw [scan_blank hc hn]
    have hblank : Covers offset [c] (scan (offset + c.utf8Size) cs) := by
      intro before d after h
      have hd : d ∈ [c] := by simp [h]
      rw [List.mem_singleton.mp hd]
      exact .inl ⟨isWordChar_eq_false_iff.mp hc, hn⟩
    exact hblank.append (ih (offset + c.utf8Size))
  | word w rest hw hr ih =>
    rw [scan_word hw hr]
    exact (covers_token offset w _ _).append ((ih _).cons _)
  | comment note rest hnote hr ih =>
    rw [scan_comment hnote hr]
    exact (covers_token offset note _ _).append ((ih _).cons _)

/-- **What stands outside of all tokens are the blanks**, those that no comment has. -/
theorem apart_iff {source : String} {before after : List Char} {c : Char}
    (h : source.toList = before ++ c :: after) :
    (∀ t ∈ ofSource source, (Source.place 0 before c).Apart t.span) ↔
      IsBlank c ∧ ∀ text span, ⟨comment text, span⟩ ∈ ofSource source →
        ¬ (Source.place 0 before c).Within span := by
  constructor
  · intro hapart
    refine ⟨?_, fun text span hmem hwithin => hwithin.not_apart (hapart _ hmem)⟩
    rcases covers_scan 0 source.toList before c after h with hblank | ⟨t, ht, hwithin⟩
    · exact hblank
    · exact absurd (hapart t ht) hwithin.not_apart
  · rintro ⟨hblank, hcomments⟩ t ht
    have hstands := standsIn_of_mem_scan 0 source.toList t ht
    have hform := wellFormed_of_mem_scan t ht
    rw [h] at hstands
    refine hstands.mem_or_apart.resolve_left fun ⟨hc, hwithin⟩ => ?_
    obtain ⟨_ | text | text, span⟩ := t
    · exact hblank.2 (by simpa [text] using hc)
    · exact hcomments text span ht hwithin
    · have hletter := hform.chars c hc
      rw [isWordChar_eq_false_iff.mpr hblank.1] at hletter
      cases hletter

end Token

end LittleMan
