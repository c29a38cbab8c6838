import LittleMan.Proofs.Assembly.Grammar
import LittleMan.Proofs.Assembly.Passes

/-!
# What references become

In an assembled program the words to be moved are exactly the operands that are labels, each listed
once, and the address in each of them is one of the program (`Program.linked_of_assemble`). This is
why moving a program keeps its meaning: `Program.wordsAt` changes these words, each of them once
(`Program.Linked.getElem?_wordsAt`).

`Draft.Sound` is what the first pass keeps to, statement by statement; `Draft.getElem?_resolve` is
what the second pass makes of the words.
-/

namespace LittleMan

/-- Whether the operand of the opcode may be a label. -/
def Opcode.Refers (op : Opcode) : Prop := op.takesOperand = true ∧ op.isDirective = false

/-- The words to be moved are instructions with the address of a word of the program. -/
structure Program.Linked (p : Program) : Prop where
  /-- They are listed in order, each of them once. -/
  sorted : p.relocations.Pairwise (· < ·)
  /-- Each of them is the code of an opcode and the address of a word. -/
  reference : ∀ r ∈ p.relocations, ∃ (op : Opcode) (target : Nat), op.Refers ∧ target < p.size ∧
    p.words[r]? = some (op.code + Int32.ofNat target)

namespace Draft

/-! ### First pass -/

/-- What a draft has in common with all that the first pass puts together. -/
structure Sound (d : Draft) : Prop where
  /-- The words that lack an address are listed in order. -/
  sorted : (d.references.toList.map Prod.fst).Pairwise (· < ·)
  /-- They are the codes of opcodes that refer to labels. -/
  reference : ∀ r ∈ d.references.toList, ∃ op : Opcode, op.Refers ∧ d.words[r.1]? = some op.code
  /-- Labels stand for addresses of words. -/
  labels : ∀ l definition, d.labels.definition? l = some definition →
    definition.address < d.words.size

theorem sound_empty : Sound {} where
  sorted := by simp
  reference := by simp
  labels := by
    intro l definition h
    cases h

theorem Sound.inside {d : Draft} (h : d.Sound) : ∀ r ∈ d.references.toList, r.1 < d.words.size := by
  intro r hr
  obtain ⟨op, -, hword⟩ := h.reference r hr
  exact (Array.getElem?_eq_some_iff.mp hword).choose

theorem encode_of_reference {s : Statement} {label : Located String}
    (hs : s.opcode.value.Admits (s.operand.map Located.value))
    (hlabel : s.reference? = some label) :
    s.opcode.value.Refers ∧ (encode s).result = .ok s.opcode.value.code := by
  unfold Statement.reference? at hlabel
  unfold encode
  split at hlabel
  · rename_i text span hoperand
    rw [hoperand] at hs ⊢
    exact ⟨⟨hs.1, hs.2.1⟩, rfl⟩
  · cases hlabel

theorem Sound.extend {d : Draft} (h : d.Sound) {s : Statement} (haddress : s.address = d.words.size)
    (hs : s.opcode.value.Admits (s.operand.map Located.value)) {word : Word}
    (hword : (encode s).result = .ok word) : (d.extend s word).Sound where
  sorted := by
    simp only [Draft.extend, Array.toList_append, List.map_append]
    refine List.pairwise_append.mpr ⟨h.sorted, ?_, ?_⟩
    · cases s.reference? <;> simp
    · intro a ha b hb
      obtain ⟨r, hr, rfl⟩ := List.mem_map.mp ha
      have hlt := h.inside r hr
      cases hlabel : s.reference? with
      | none => simp [hlabel] at hb
      | some label =>
        obtain rfl : b = s.address := by simpa [hlabel] using hb
        omega
  reference := by
    intro r hr
    simp only [Draft.extend, Array.toList_append, List.mem_append] at hr ⊢
    rcases hr with hr | hr
    · obtain ⟨op, hop, hcode⟩ := h.reference r hr
      refine ⟨op, hop, ?_⟩
      rw [Array.getElem?_push_lt (h.inside r hr), ← Array.getElem?_eq_getElem, hcode]
    · cases hlabel : s.reference? with
      | none => simp [hlabel] at hr
      | some label =>
        obtain rfl : r = (s.address, label) := by simpa [hlabel] using hr
        obtain ⟨hrefers, hcode⟩ := encode_of_reference hs hlabel
        obtain rfl : s.opcode.value.code = word := Except.ok.inj (hcode.symm.trans hword)
        refine ⟨s.opcode.value, hrefers, ?_⟩
        rw [haddress]
        exact Array.getElem?_push_size
  labels := by
    intro l definition hl
    simp only [Draft.extend, Array.size_push] at hl ⊢
    have hkept : (d.labels.noteReference s).definition? l = some definition →
        definition.address < d.words.size + 1 := by
      intro hl
      rw [LabelTable.definition?_noteReference] at hl
      exact Nat.lt_succ_of_lt (h.labels l definition hl)
    unfold LabelTable.noteLabel at hl
    split at hl
    · exact hkept hl
    · rename_i label _
      by_cases hlabel : l = label.value
      · rw [hlabel, LabelTable.definition?_define_self] at hl
        obtain rfl := Option.some.inj hl
        change s.address < _
        omega
      · rw [LabelTable.definition?_define_of_ne _ hlabel] at hl
        exact hkept hl

/-- **The first pass keeps drafts sound.** -/
theorem Sound.foldlM_add {d d' : Draft} (h : d.Sound) {policy : LabelPolicy} {ss : List Statement}
    (haddress : ss.map Statement.address = List.range' d.words.size ss.length)
    (hss : ∀ s ∈ ss, s.opcode.value.Admits (s.operand.map Located.value))
    (hadd : (ss.foldlM (add policy) d).result = .ok d') : d'.Sound := by
  induction ss generalizing d with
  | nil =>
    obtain rfl := Except.ok.inj hadd
    exact h
  | cons s ss ih =>
    rw [List.map_cons, List.length_cons, List.range'_succ] at haddress
    obtain ⟨hs, haddress⟩ := List.cons.inj haddress
    obtain ⟨word, hword, hadd⟩ := exists_extend_of_foldlM_add hadd
    have hsize : (d.extend s word).words.size = d.words.size + 1 := Array.size_push ..
    exact ih (h.extend hs (hss s List.mem_cons_self) hword) (hsize ▸ haddress)
      (fun t ht => hss t (List.mem_cons_of_mem _ ht)) hadd

/-! ### Second pass -/

/-- **The second pass adds to each reference the address of its label**, and nothing else. -/
theorem getElem?_resolve {labels : LabelTable} {references : List (Nat × Located String)}
    {words words' : Array Word} (hnodup : (references.map Prod.fst).Nodup)
    (h : (references.foldlM (insertAddress labels) words).result = .ok words') :
    words'.size = words.size ∧
      (∀ r ∈ references, ∃ target, labels.address? r.2.value = some target ∧
        words'[r.1]? = words[r.1]?.map (· + Int32.ofNat target)) ∧
      ∀ i, i ∉ references.map Prod.fst → words'[i]? = words[i]? := by
  induction references generalizing words with
  | nil =>
    obtain rfl := Except.ok.inj h
    exact ⟨rfl, by simp, fun _ _ => rfl⟩
  | cons reference references ih =>
    obtain ⟨address, label⟩ := reference
    rw [List.map_cons, List.nodup_cons] at hnodup
    obtain ⟨haddress, hnodup⟩ := hnodup
    rw [Logged.result_foldlM_cons, result_insertAddress] at h
    cases htarget : labels.address? label.value with
    | none => rw [htarget] at h; cases h
    | some target =>
      rw [htarget] at h
      dsimp only at h
      split at h
      · obtain ⟨hsize, hinserted, hkept⟩ := ih hnodup h
        refine ⟨hsize.trans (Program.size_shiftWord ..), ?_, ?_⟩
        · refine List.forall_mem_cons.mpr ⟨⟨target, htarget, ?_⟩, fun r hr => ?_⟩
          · rw [hkept address haddress, Program.getElem?_shiftWord_self]
          · obtain ⟨target', htarget', hword⟩ := hinserted r hr
            refine ⟨target', htarget', ?_⟩
            have hne : r.1 ≠ address := fun heq =>
              haddress (heq ▸ List.mem_map.mpr ⟨r, hr, rfl⟩)
            rw [hword, Program.getElem?_shiftWord_of_ne _ _ hne]
        · intro i hi
          rw [List.map_cons, List.mem_cons, not_or] at hi
          rw [hkept i hi.2, Program.getElem?_shiftWord_of_ne _ _ hi.1]
      · cases h

end Draft

namespace Program

/-- **The assembler links programs.** -/
theorem linked_of_assemble {source : String} {policy : LabelPolicy} {p : Program}
    (h : assemble source policy = .ok p) : p.Linked := by
  obtain ⟨l, hl, h⟩ := exists_parse_of_assemble h
  have hwritten := (Listing.writtenAs_of_parse hl).1
  obtain ⟨d, words, hd, hwords, rfl⟩ := Listing.exists_passes_of_assemble h
  have hsound := Draft.sound_empty.foldlM_add hwritten.address hwritten.admits hd
  have hnodup : (d.references.toList.map Prod.fst).Nodup :=
    hsound.sorted.imp fun hlt => Nat.ne_of_lt hlt
  obtain ⟨hsize, hinserted, -⟩ := Draft.getElem?_resolve hnodup hwords
  refine ⟨hsound.sorted, fun r hr => ?_⟩
  obtain ⟨reference, hreference, rfl⟩ := List.mem_map.mp hr
  obtain ⟨op, hop, hcode⟩ := hsound.reference reference hreference
  obtain ⟨target, htarget, hword⟩ := hinserted reference hreference
  obtain ⟨definition, hdefinition, rfl⟩ := Option.map_eq_some_iff.mp htarget
  refine ⟨op, definition.address, hop, ?_, ?_⟩
  · exact Nat.lt_of_lt_of_eq (hsound.labels _ definition hdefinition) hsize.symm
  · exact hword.trans (by rw [hcode]; rfl)

/-- The word that `word` at that address becomes when the program starts at `offset`. -/
def moveWord (p : Program) (offset address : Nat) (word : Word) : Word :=
  if address ∈ p.relocations then word + Int32.ofNat offset else word

theorem getElem?_foldl_shiftWord (offset : Nat) {addresses : List Nat} (h : addresses.Nodup)
    (words : Array Word) (i : Nat) :
    (addresses.foldl (shiftWord offset) words)[i]? =
      words[i]?.map fun w => if i ∈ addresses then w + Int32.ofNat offset else w := by
  induction addresses generalizing words with
  | nil => simp
  | cons a addresses ih =>
    obtain ⟨ha, hnodup⟩ := List.nodup_cons.mp h
    rw [List.foldl_cons, ih hnodup]
    by_cases hi : i = a
    · subst hi
      rw [getElem?_shiftWord_self, Option.map_map]
      congr 1
      funext w
      simp [ha]
    · rw [getElem?_shiftWord_of_ne _ _ hi]
      simp [hi]

theorem Linked.getElem?_wordsAt {p : Program} (h : p.Linked) (offset i : Nat) :
    (p.wordsAt offset)[i]? = p.words[i]?.map (p.moveWord offset i) :=
  getElem?_foldl_shiftWord offset (h.sorted.imp fun hlt => Nat.ne_of_lt hlt) p.words i

end Program

end LittleMan
