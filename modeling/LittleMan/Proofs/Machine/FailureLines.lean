import LittleMan.Proofs.Assembly.StatementLines
import LittleMan.Proofs.Assembly.WordPlaces
import LittleMan.Proofs.Machine.Failures
import LittleMan.Proofs.Machine.Relocation

/-!
# Lines of failures

A run that fails does so in one of its steps, and what it reports is the address at which the
pointer stood before that step (`Machine.EndsIn.exists_step`). If this is a mailbox of the program,
the index of the program knows a line for it, which is the line of the source on which the first
word of the statement stands; no other mailbox has a line (`Program.line?_of_endsIn`).

The program may have changed itself and jumped anywhere before it fails: that the address is the one
of the pointer is said of a single step, from any state, and the line is looked up by the address
alone.
-/

namespace LittleMan

/-! ### Where statements begin -/

namespace Statement

/-- The word is the first one of the statement: the label or, if there is none, the mnemonic. -/
def BeginsWith (s : Statement) (word : Located String) : Prop :=
  match s.label with
  | some label => word = label
  | none => Opcode.ofWord? word.value = some s.opcode.value ∧ word.span = s.opcode.span

/-- The characters are all that stands in the source before the first word of the statement. -/
def StandsBehind (s : Statement) (source : String) (before : List Char) : Prop :=
  ∃ word after, s.BeginsWith word ∧ source.toList = before ++ (word.value.toList ++ after) ∧
    word.span.start = Source.byteSize before

theorem SpeltBy.exists_first {s : Statement} {c : Clause} (h : s.SpeltBy c) :
    ∃ word ∈ c.words, s.BeginsWith word ∧ word.span.start = s.span.start := by
  unfold BeginsWith Clause.words Statement.span
  rw [h.label]
  cases c.label with
  | some label => exact ⟨label, List.mem_cons_self, rfl, rfl⟩
  | none =>
    refine ⟨c.mnemonic, List.mem_cons_self, ⟨h.opcode, h.place.symm⟩, ?_⟩
    rw [← h.place]
    rfl

end Statement

/-- **Every statement stands behind a part of its source.** -/
theorem Listing.exists_standsBehind {source : String} {l : Listing} (h : parse source = .ok l)
    {s : Statement} (hs : s ∈ l.statements) :
    ∃ before, s.StandsBehind source before ∧
      Location.ofOffset? source s.span.start = some (Location.after before) := by
  obtain ⟨c, hwords, hspelt⟩ := exists_clause_of_parse h hs
  obtain ⟨word, hword, hbegins, hstart⟩ := hspelt.exists_first
  obtain ⟨htext, -⟩ := Token.text?_of_mem_words (hwords.mem hword)
  obtain ⟨before, after, hsource, hplace, -⟩ := Span.text?_eq_some_iff.mp htext
  refine ⟨before, ⟨word, after, hbegins, hsource, hplace.symm⟩, ?_⟩
  rw [← hstart, ← hplace]
  exact Location.ofOffset?_byteSize hsource

/-- **The line of a mailbox is the one on which its statement begins.** -/
theorem Program.exists_of_lineAt? {source : String} {policy : LabelPolicy} {p : Program}
    {l : Listing} (hl : Listing.parse source = .ok l) (hp : l.assemble policy = .ok p)
    {start address line : Nat} (h : p.lineAt? source start address = some line) :
    ∃ s before, l.statements[address - start]? = some s ∧ s.StandsBehind source before ∧
      line = before.count '\n' + 1 := by
  unfold lineAt? at h
  split at h
  · rw [Listing.get?_sourceIndex (Listing.address_of_parse hl) hp] at h
    obtain ⟨span, hspan, hline⟩ := Option.bind_eq_some_iff.mp h
    obtain ⟨s, hs, rfl⟩ := Option.map_eq_some_iff.mp hspan
    obtain ⟨before, hbefore, hplace⟩ := Listing.exists_standsBehind hl (List.mem_of_getElem? hs)
    rw [hplace, Option.map_some, Location.line_after] at hline
    exact ⟨s, before, hs, hbefore, (Option.some.inj hline).symm⟩
  · cases h

/-! ### Runs that fail -/

namespace Machine

variable {σ : Type} [NumberSource σ] {m m' : Machine σ} {e : MachineError}

/-- A run of the machine `m`, in one of the ways in which machines are run, ends in the error `e`
and leaves the machine `m'` behind. -/
inductive EndsIn (m : Machine σ) (e : MachineError) (m' : Machine σ) : Prop where
  /-- The number of instructions is bounded. -/
  | atMost {limit : Nat} (h : m.runAtMost limit = (.error e, m'))
  /-- There is a condition for going on. -/
  | conditional {allowed : Nat → Bool} (h : m.runWhile allowed 0 = some (.error e, m'))
  /-- Nothing but the machine ends the run. -/
  | unbounded (h : m.run = some (.error e, m'))
  /-- The steps are taken one by one. -/
  | stepping {n : Nat} (h : (m.steps n).2.step = (.error e, m'))

theorem running_of_step (h : m.step = (.error e, m')) : m.state.halted = false := by
  cases hhalted : m.state.halted with
  | false => rfl
  | true =>
    rw [step_stopped hhalted] at h
    cases h

theorem exists_step_of_runAtMost {limit : Nat} (h : m.runAtMost limit = (.error e, m')) :
    ∃ n, (m.steps n).2.step = (.error e, m') := by
  induction limit generalizing m with
  | zero => cases h
  | succ limit ih =>
    cases m.next with
    | stopped hhalted =>
      rw [runAtMost_of_halted hhalted] at h
      cases h
    | fails hrunning hstep _ =>
      rw [runAtMost_of_error hrunning hstep] at h
      obtain ⟨he, hm'⟩ := Prod.mk.inj h
      obtain rfl := Except.error.inj he
      exact ⟨0, hm' ▸ hstep⟩
    | @goesOn stepped hrunning hstep =>
      rw [runAtMost_of_ok hrunning hstep] at h
      obtain ⟨n, hfails⟩ := ih h
      have hsteps : (m.steps (n + 1)).2 = (stepped.steps n).2 := by rw [steps, hstep]
      exact ⟨n + 1, hsteps ▸ hfails⟩

/-- **A run that fails does so in a step, which it reports.** -/
theorem EndsIn.exists_step (h : m.EndsIn e m') :
    ∃ n, (m.steps n).2.state.halted = false ∧ (m.steps n).2.step = (.error e, m') ∧
      e.address = (m.steps n).2.state.pointer := by
  have hstep : ∃ n, (m.steps n).2.step = (.error e, m') := by
    cases h with
    | atMost h => exact exists_step_of_runAtMost h
    | conditional h =>
      obtain ⟨limit, hlimit, -⟩ := runWhile_eq_some_iff.mp h
      exact exists_step_of_runAtMost hlimit
    | unbounded h =>
      obtain ⟨limit, hlimit⟩ := run_eq_some_iff.mp h
      exact exists_step_of_runAtMost hlimit
    | @stepping n h => exact ⟨n, h⟩
  obtain ⟨n, hstep⟩ := hstep
  exact ⟨n, running_of_step hstep, hstep, (stoppedBy_of_step hstep).address⟩

end Machine

/-! ### The line of a failure -/

namespace Program

variable {source : String} {policy : LabelPolicy} {p : Program}

/-- **A failure is reported on the right line.** Let a source be assembled to a program that fits at
an address, and let a fresh machine with the program there and the pointer at it fail in any kind of
run. The failure is that of a step, and its address is where the pointer stood before that step.
After the index of the program has been moved along and told in lines, there is a line for the
failure exactly if its address is a mailbox of the program; this is the line of the source on which
the first word of the statement for that mailbox stands. -/
theorem line?_of_endsIn {σ : Type} [NumberSource σ] (hp : assemble source policy = .ok p)
    {address : Nat} (hfit : address + p.size ≤ mailboxCount) (input : σ) (listeners : Nat)
    {e : MachineError} {m' : Machine σ} (h : (p.loadedAt address input listeners).EndsIn e m') :
    (({ source := input, listeners } : Machine σ).loadProgram p address).1 = .ok () ∧
    (∃ n, let before := ((p.loadedAt address input listeners).steps n).2
      before.state.halted = false ∧ before.step = (.error e, m') ∧
        e.address = before.state.pointer) ∧
    ∃ l lines, Listing.parse source = .ok l ∧ l.size = p.size ∧
      (p.sourceIndex.relocate address).toLines? source = some lines ∧
      ((lines.line? e.address).isSome ↔ address ≤ e.address ∧ e.address < address + p.size) ∧
      ∀ line, lines.line? e.address = some line →
        ∃ s before, l.statements[e.address - address]? = some s ∧ s.StandsBehind source before ∧
          line = before.count '\n' + 1 := by
  refine ⟨by rw [loadProgram_of_fits _ hfit], h.exists_step, ?_⟩
  obtain ⟨l, hl, hassemble⟩ := exists_parse_of_assemble hp
  obtain ⟨lines, hlines, hline⟩ := exists_toLines? hp address
  refine ⟨l, lines, hl, (Listing.size_of_assemble (Listing.address_of_parse hl) hassemble).symm,
    hlines, ?_, fun line hsome => ?_⟩
  · rw [hline]
    exact isSome_lineAt?_iff hp address e.address
  · rw [hline] at hsome
    exact exists_of_lineAt? hl hassemble hsome

/-- A program puts a word that is no instruction in front of itself and fails there. The statement,
the third one, begins with its label on the fifth line. -/
theorem line?_of_endsIn_of_changed :
    let source := "// start\nLDA n\nSTA x\n\nx // here\nDAT\nn DAT 400"
    ∃ (p : Program) (m' : Machine SilentInput), assemble source .unique = .ok p ∧
      50 + p.size ≤ mailboxCount ∧
      (p.loadedAt 50 ({} : SilentInput) 0).EndsIn ⟨52, .badInstruction 400 .reserved⟩ m' ∧
      ∃ l lines s before, (p.sourceIndex.relocate 50).toLines? source = some lines ∧
        lines.line? 52 = some 5 ∧ Listing.parse source = .ok l ∧ l.statements[2]? = some s ∧
        s.StandsBehind source before ∧ before.count '\n' = 4 := by
  intro source
  have hseen : (assemble source .unique).map (fun p =>
      (p.size, ((p.loadedAt 50 ({} : SilentInput) 0).runAtMost 9).1,
        ((p.sourceIndex.relocate 50).toLines? source).bind (·.line? 52))) =
      .ok (4, .error ⟨52, .badInstruction 400 .reserved⟩, some 5) := by
    decide +kernel
  cases hp : assemble source .unique with
  | error e =>
    rw [hp] at hseen
    cases hseen
  | ok p =>
    rw [hp] at hseen
    obtain ⟨hsize, hseen⟩ := Prod.mk.inj (Except.ok.inj hseen)
    obtain ⟨hanswer, hfive⟩ := Prod.mk.inj hseen
    have hfit : 50 + p.size ≤ mailboxCount := by
      rw [hsize]
      decide
    have hfails := Machine.EndsIn.atMost (Prod.ext hanswer rfl)
    obtain ⟨-, -, l, lines, hl, -, hlines, -, hline⟩ := line?_of_endsIn hp hfit _ 0 hfails
    rw [hlines] at hfive
    obtain ⟨s, before, hs, hbefore, hcount⟩ := hline 5 hfive
    exact ⟨p, _, rfl, hfit, hfails, l, lines, s, before, hlines, hfive, hl, hs, hbefore, by omega⟩

end Program

end LittleMan
