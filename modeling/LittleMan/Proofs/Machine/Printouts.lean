import LittleMan.Proofs.Machine.Hosts

/-!
# What is printed, and who is told

A host makes a machine execute instructions, loads words and programs into it, and sets its memory
and registers (`Action`). Meanwhile some instructions print: `OUT` a number, `OTC` a character
(`Machine.printouts`). What has been printed can be seen in four places, which are in step
(`Machine.printouts_told`): the output, the texts that the sink has been called with, the whole
outputs that it has been called with, and the events.

One step prints one text at most (`Machine.step_prints`), and this text is what the instruction has
to print after what has been printed before (`Printout.Prints`). Steps in a row print such texts one
behind the other (`Machine.Prints.append`), and so do the actions of a host (`Machine.acts_print`);
the rest is about lists of texts.
-/

namespace LittleMan

/-! ### Hosts -/

/-- A change that a host makes by itself. -/
inductive Assignment where
  /-- A mailbox gets a word. -/
  | mailbox (address : Fin mailboxCount) (data : Word)
  /-- The accumulator gets a word. -/
  | accumulator (data : Word)
  /-- The pointer is set. -/
  | pointer (address : Nat)
  /-- The pending number is replaced. -/
  | pending (data : Word)
  /-- The machine is stopped, or made to go on. -/
  | halted (halted : Bool)

/-- The state after a change. -/
def State.assign (s : State) : Assignment → State
  | .mailbox address data => { s with memory := s.memory.set address data address.isLt }
  | .accumulator data => { s with accumulator := data }
  | .pointer address => { s with pointer := address }
  | .pending data => { s with pending := data }
  | .halted halted => { s with halted }

@[simp] theorem State.output_assign (s : State) (a : Assignment) :
    (s.assign a).output = s.output := by
  cases a <;> rfl

/-- What a host does with a machine. -/
inductive Action where
  /-- It has work done by it. -/
  | work (w : Work)
  /-- It makes a change. -/
  | assign (a : Assignment)

/-- How many instructions are executed at most. -/
def Action.bound : Action → Nat
  | work w => w.bound
  | assign _ => 0

namespace Machine

variable {σ : Type} [NumberSource σ]

/-- The machine after an action, whatever the answer to it. -/
def act (m : Machine σ) : Action → Machine σ
  | .work w => m.work w
  | .assign a => { m with state := m.state.assign a }

/-- The machine after the actions, one after the other. -/
def acts (m : Machine σ) (actions : List Action) : Machine σ := actions.foldl act m

end Machine

/-! ### Printouts -/

/-- What an instruction prints. -/
inductive Printout where
  /-- `OUT` prints a number. -/
  | number (value : Word)
  /-- `OTC` prints the character with that code point. -/
  | character (code : Word)
  deriving DecidableEq, Repr

/-- The text is what is printed behind `before`: a number begins a line, so that a line break stands
in front of it if there is a line to end. -/
def Printout.Prints (before text : String) : Printout → Prop
  | number value => text = (if before = "" then "" else "\n") ++ Decimal.ofInt value.toInt
  | character code => ∃ char : Char, (char.toNat : Int) = code.toInt ∧ text = char.toString

namespace Machine

variable {σ : Type} [NumberSource σ]

/-- What the next step prints: the accumulator, if the machine is running, the instruction at the
pointer is `OUT` or `OTC`, and the step does not fail. -/
def printout? (m : Machine σ) : Option Printout :=
  if m.state.halted then none
  else
    match m.state.current, m.step.1 with
    | .ok .out, .ok () => some (.number m.state.accumulator)
    | .ok .otc, .ok () => some (.character m.state.accumulator)
    | _, _ => none

/-- What that many steps print, in order. -/
def stepPrintouts (m : Machine σ) : Nat → List Printout
  | 0 => []
  | n + 1 => m.printout?.toList ++ m.step.2.stepPrintouts n

/-- What actions print, in order: only the steps made print. -/
def printouts (m : Machine σ) : List Action → List Printout
  | [] => []
  | a :: actions => m.stepPrintouts a.bound ++ (m.act a).printouts actions

end Machine

/-! ### Texts one behind the other -/

/-- The texts are what is printed, one behind the other and all behind `before`. -/
inductive Printout.AllPrint : String → List Printout → List String → Prop where
  /-- Nothing is printed. -/
  | nil {before : String} : AllPrint before [] []
  /-- A text is printed, and then the others behind it. -/
  | cons {before text : String} {p : Printout} {ps : List Printout} {texts : List String} :
    p.Prints before text → AllPrint (before ++ text) ps texts →
      AllPrint before (p :: ps) (text :: texts)

/-- The calls of a sink that is told every text, and with it all that has been printed. -/
def calls (before : String) : List String → List (String × String)
  | [] => []
  | text :: texts => (text, before ++ text) :: calls (before ++ text) texts

theorem calls_append (before : String) (texts texts' : List String) :
    calls before (texts ++ texts') =
      calls before texts ++ calls (before ++ String.join texts) texts' := by
  induction texts generalizing before with
  | nil => simp [calls]
  | cons text texts ih => simp [calls, ih, String.append_assoc]

theorem map_fst_calls (before : String) (texts : List String) :
    (calls before texts).map Prod.fst = texts := by
  induction texts generalizing before with
  | nil => rfl
  | cons text texts ih => rw [calls, List.map_cons, ih]

theorem snd_of_getElem?_calls {before : String} {texts : List String} {k : Nat}
    {call : String × String} (h : (calls before texts)[k]? = some call) :
    call.2 = before ++ String.join (texts.take (k + 1)) := by
  induction texts generalizing before k with
  | nil => cases h
  | cons text texts ih =>
    cases k with
    | zero =>
      obtain rfl := Option.some.inj h
      simp
    | succ k =>
      rw [ih h, List.take_succ_cons, String.join_cons, String.append_assoc]

namespace Printout.AllPrint

variable {before : String} {ps : List Printout} {texts : List String}

theorem of_option {p? : Option Printout} {text? : Option String}
    (h : Option.Rel (fun p text => p.Prints before text) p? text?) :
    AllPrint before p?.toList text?.toList := by
  cases h with
  | none => exact .nil
  | some hp => exact .cons hp .nil

theorem append (h : AllPrint before ps texts) {ps' : List Printout} {texts' : List String}
    (h' : AllPrint (before ++ String.join texts) ps' texts') :
    AllPrint before (ps ++ ps') (texts ++ texts') := by
  induction h with
  | nil => simpa using h'
  | cons hp _ ih =>
    refine .cons hp (ih ?_)
    rwa [String.join_cons, ← String.append_assoc] at h'

theorem length_eq (h : AllPrint before ps texts) : texts.length = ps.length := by
  induction h with
  | nil => rfl
  | cons _ _ ih => rw [List.length_cons, List.length_cons, ih]

theorem exists_getElem? (h : AllPrint before ps texts) {k : Nat} {p : Printout}
    (hp : ps[k]? = some p) :
    ∃ text, texts[k]? = some text ∧ p.Prints (before ++ String.join (texts.take k)) text := by
  induction h generalizing k with
  | nil => cases hp
  | @cons before text q ps texts hq _ ih =>
    cases k with
    | zero =>
      obtain rfl := Option.some.inj hp
      refine ⟨text, rfl, ?_⟩
      simpa using hq
    | succ k =>
      obtain ⟨text', htext, hprints⟩ := ih hp
      refine ⟨text', htext, ?_⟩
      rwa [List.take_succ_cons, String.join_cons, ← String.append_assoc]

theorem join_numbers_of_ne (hbefore : before ≠ "") {values : List Word}
    (h : AllPrint before (values.map .number) texts) :
    before ++ String.join texts =
      "\n".intercalate (before :: values.map fun value => Decimal.ofInt value.toInt) := by
  induction values generalizing before texts with
  | nil =>
    cases h
    simp
  | cons value values ih =>
    cases h with
    | @cons _ text _ _ texts hprints h =>
      have htext : text = "\n" ++ Decimal.ofInt value.toInt := by
        rw [hprints, if_neg hbefore]
      have hne : before ++ text ≠ "" := fun h => hbefore (String.append_eq_empty_iff.mp h).1
      rw [String.join_cons, ← String.append_assoc, ih hne h, htext, List.map_cons,
        String.intercalate_cons_cons, ← String.append_assoc, String.intercalate_cons_append]

theorem join_numbers {values : List Word} (h : AllPrint "" (values.map .number) texts) :
    String.join texts = "\n".intercalate (values.map fun value => Decimal.ofInt value.toInt) := by
  cases values with
  | nil =>
    cases h
    simp
  | cons value values =>
    cases h with
    | @cons _ text _ _ texts hprints h =>
      have htext : text = Decimal.ofInt value.toInt := by
        rw [hprints, if_pos rfl, String.empty_append]
      rw [String.empty_append] at h
      rw [String.join_cons, h.join_numbers_of_ne (htext ▸ Decimal.ofInt_ne_empty _), htext,
        List.map_cons]

end Printout.AllPrint

/-! ### Signals of printing -/

/-- Whether the signal is about printing. -/
def Signal.isPrinting : Signal → Bool
  | printed .. => true
  | event (.output _) => true
  | _ => false

/-- The call of the sink in a journal entry: the text just printed and all that has been printed. -/
def Notice.call? : Notice → Option (String × String)
  | printed appended output => some (appended, output)
  | _ => none

/-- Whether the journal entry is about printing, and told to the sink or to that listener. -/
def Notice.isPrinting (listener : Nat) : Notice → Bool
  | printed .. => true
  | heard l (.output _) => l = listener
  | _ => false

/-- The signals when a text has been printed: the sink is called before the listeners are told. -/
def printSignals (before text : String) : List Signal :=
  [.printed text (before ++ text), .event (.output text)]

/-- The text that a deed prints. -/
def Deed.text? : Deed → Option String
  | print text => some text
  | _ => none

/-- Only a text that is printed is told and put out. -/
theorem Deed.printing {σ : Type} [NumberSource σ] (s : State) (source : σ) (address : Nat)
    (d : Deed) :
    (d.effect s source address).signals.filter Signal.isPrinting =
        d.text?.toList.flatMap (printSignals s.output) ∧
      (d.effect s source address).state.output = s.output ++ d.text?.getD "" := by
  cases d with
  | print text => exact ⟨rfl, rfl⟩
  | rest | fail cause | stop | accumulate data | goTo target | store operand h | readNumber =>
    exact ⟨rfl, String.append_empty.symm⟩

namespace State

theorem printing_step {σ : Type} [NumberSource σ] (s : State) (source : σ) :
    (s.step source).signals.filter Signal.isPrinting =
        s.stepDeed.2.text?.toList.flatMap (printSignals s.output) ∧
      (s.step source).state.output = s.output ++ s.stepDeed.2.text?.getD "" := by
  obtain ⟨hsignals, houtput⟩ := Deed.printing s.ahead source s.pointer s.stepDeed.2
  rw [output_ahead] at hsignals houtput
  have hremarks : (s.stepDeed.1.map Signal.remark).filter Signal.isPrinting = [] := by
    rw [List.filter_map, List.map_eq_nil_iff]
    exact List.filter_eq_nil_iff.mpr fun _ _ => Bool.false_ne_true
  rw [step_eq]
  refine ⟨?_, houtput⟩
  rw [List.filter_append, hremarks, List.nil_append, hsignals]

theorem text?_deed (s : State) (ins : Instruction) : (s.deed ins).text? = match ins with
    | .out => some s.numberText
    | .otc => (charOf? s.accumulator).map Char.toString
    | _ => none := by
  cases ins with
  | add a | sub a | lda a =>
    simp only [deed]
    cases s.memory[a]? <;> rfl
  | sta a | brz a | brp a =>
    simp only [deed]
    split <;> rfl
  | otc =>
    simp only [deed]
    cases charOf? s.accumulator <;> rfl
  | hlt | bra a | inp | out => rfl

end State

namespace Machine

variable {σ : Type} [NumberSource σ]

theorem step_fst_of_current {m : Machine σ} (h : m.state.halted = false) {ins : Instruction}
    (hcurrent : m.state.current = .ok ins) :
    m.step.1 = match ((m.state.ahead.deed ins).effect m.state.ahead m.source
        m.state.pointer).failure with
      | none => .ok ()
      | some e => .error e := by
  have hanswer := m.step_fst
  rw [State.step_eq, State.stepDeed_of_current h hcurrent] at hanswer
  exact hanswer

/-- A step prints what its printout has to print, and nothing without one. -/
theorem printout?_rel_text? (m : Machine σ) :
    Option.Rel (fun p text => p.Prints m.state.output text) m.printout?
      m.state.stepDeed.2.text? := by
  cases m.state.turn with
  | stopped hhalted hdeed =>
    rw [printout?, if_pos hhalted, hdeed]
    exact .none
  | unread hrunning hcurrent hdeed =>
    rw [printout?, if_neg (Bool.eq_false_iff.mp hrunning), hdeed, hcurrent]
    exact .none
  | @executes ins hrunning hcurrent hdeed =>
    have hanswer := step_fst_of_current hrunning hcurrent
    rw [printout?, if_neg (Bool.eq_false_iff.mp hrunning), hdeed, hcurrent, State.text?_deed,
      State.accumulator_ahead]
    cases ins with
    | out =>
      rw [hanswer]
      refine .some ?_
      simp only [Printout.Prints, State.numberText, State.output_ahead, State.accumulator_ahead,
        String.isEmpty_iff]
    | otc =>
      simp only [State.deed, State.accumulator_ahead] at hanswer
      cases hchar : State.charOf? m.state.accumulator with
      | none =>
        rw [hchar] at hanswer
        rw [hanswer]
        exact .none
      | some char =>
        rw [hchar] at hanswer
        rw [hanswer]
        exact .some ⟨char, State.charOf?_eq_some_iff.mp hchar, rfl⟩
    | _ => exact .none

end Machine

/-! ### Who is told -/

namespace Machine

variable {σ : Type}

/-- From the first machine to the second the texts have been printed, and all are told of it. -/
structure PrintsTo (m m' : Machine σ) (texts : List String) : Prop where
  /-- They stand in the output, behind what was there. -/
  output : m'.state.output = m.state.output ++ String.join texts
  /-- There are as many listeners. -/
  listeners : m'.listeners = m.listeners
  /-- The sink is called with each of them, and then the listeners are told it. -/
  told : ∃ notices, m'.journal.toList = m.journal.toList ++ notices ∧
    notices.filterMap Notice.call? = calls m.state.output texts ∧
    ∀ listener < m.listeners, notices.filter (Notice.isPrinting listener) =
      (calls m.state.output texts).flatMap fun call =>
        [.printed call.1 call.2, .heard listener (.output call.1)]

theorem PrintsTo.append {m m' m'' : Machine σ} {texts texts' : List String}
    (h : m.PrintsTo m' texts) (h' : m'.PrintsTo m'' texts') : m.PrintsTo m'' (texts ++ texts') := by
  obtain ⟨houtput, hlisteners, notices, hjournal, hcalls, hevents⟩ := h
  obtain ⟨houtput', hlisteners', notices', hjournal', hcalls', hevents'⟩ := h'
  refine ⟨?_, hlisteners'.trans hlisteners, notices ++ notices', ?_, ?_, fun listener hlt => ?_⟩
  · rw [houtput', houtput, String.join_append, String.append_assoc]
  · rw [hjournal', hjournal, List.append_assoc]
  · rw [List.filterMap_append, hcalls, hcalls', houtput, calls_append]
  · rw [List.filter_append, hevents listener hlt, hevents' listener (hlisteners ▸ hlt), houtput,
      calls_append, List.flatMap_append]

/-- What is picked from the entries for signals is picked from those about printing, if nothing else
is picked. -/
theorem filterMap_flatMap_notices {α : Type} {listeners : Nat} {pick : Notice → Option α}
    (h : ∀ signal : Signal, signal.isPrinting = false →
      (signal.notices listeners).filterMap pick = []) (signals : List Signal) :
    (signals.flatMap (Signal.notices listeners)).filterMap pick =
      ((signals.filter Signal.isPrinting).flatMap (Signal.notices listeners)).filterMap pick := by
  induction signals with
  | nil => rfl
  | cons signal signals ih =>
    rw [List.flatMap_cons, List.filterMap_append, ih]
    cases hprinting : signal.isPrinting with
    | true =>
      rw [List.filter_cons_of_pos hprinting, List.flatMap_cons, List.filterMap_append]
    | false =>
      rw [List.filter_cons_of_neg (by simp [hprinting]), h signal hprinting, List.nil_append]

theorem filterMap_call?_notices (listeners : Nat) (before text : String) :
    ((printSignals before text).flatMap (Signal.notices listeners)).filterMap Notice.call? =
      [(text, before ++ text)] := by
  have hevents : ((List.range listeners).map (Notice.heard · (.output text))).filterMap
      Notice.call? = [] := filterMap_heard (fun _ => rfl) listeners
  simp only [printSignals, List.flatMap_cons, List.flatMap_nil, Signal.notices, List.append_nil,
    List.filterMap_append, hevents]
  rfl

/-- A listener is told the text after the sink has been called with it. -/
theorem filter_isPrinting_notices {listeners listener : Nat} (h : listener < listeners)
    (before text : String) :
    ((printSignals before text).flatMap (Signal.notices listeners)).filter
        (Notice.isPrinting listener) =
      [.printed text (before ++ text), .heard listener (.output text)] := by
  have hevents : ((List.range listeners).map (Notice.heard · (.output text))).filter
      (Notice.isPrinting listener) = [.heard listener (.output text)] := by
    rw [List.filter_map]
    exact congrArg (List.map (Notice.heard · (.output text))) (filter_range h)
  simp only [printSignals, List.flatMap_cons, List.flatMap_nil, Signal.notices, List.append_nil,
    List.filter_append, hevents]
  rfl

theorem filterMap_call?_of_not_isPrinting (listeners : Nat) (signal : Signal)
    (h : signal.isPrinting = false) : (signal.notices listeners).filterMap Notice.call? = [] := by
  cases signal with
  | asked before after => rfl
  | printed appended output => cases h
  | event e => exact filterMap_heard (fun _ => rfl) listeners
  | remark r => rfl

theorem filter_isPrinting_of_not_isPrinting (listeners listener : Nat) (signal : Signal)
    (h : signal.isPrinting = false) :
    (signal.notices listeners).filter (Notice.isPrinting listener) = [] := by
  cases signal with
  | asked before after => rfl
  | printed appended output => cases h
  | event e =>
    rw [Signal.notices, List.filter_map, List.map_eq_nil_iff]
    refine List.filter_eq_nil_iff.mpr fun l _ => ?_
    cases e with
    | output text => cases h
    | memory address data | accumulator data | jump origin target | input data | halt =>
      exact Bool.false_ne_true
  | remark r => rfl

/-- Signals that tell of printing no more than a text, or nothing at all. -/
theorem printsTo_signal (m : Machine σ) {state : State} {source : σ} {signals : List Signal}
    {text? : Option String}
    (hsignals : signals.filter Signal.isPrinting =
      text?.toList.flatMap (printSignals m.state.output))
    (houtput : state.output = m.state.output ++ text?.getD "") :
    m.PrintsTo ({ m with state, source }.signal signals) text?.toList := by
  have hcalls : (signals.flatMap (Signal.notices m.listeners)).filterMap Notice.call? =
      calls m.state.output text?.toList := by
    rw [filterMap_flatMap_notices (filterMap_call?_of_not_isPrinting m.listeners) signals, hsignals]
    cases text? with
    | none => rfl
    | some text =>
      rw [Option.toList_some, List.flatMap_singleton]
      exact filterMap_call?_notices m.listeners m.state.output text
  have hevents : ∀ listener < m.listeners,
      (signals.flatMap (Signal.notices m.listeners)).filter (Notice.isPrinting listener) =
        (calls m.state.output text?.toList).flatMap fun call =>
          [.printed call.1 call.2, .heard listener (.output call.1)] := by
    intro listener hlt
    have hother (signal : Signal) (h : signal.isPrinting = false) :
        (signal.notices m.listeners).filterMap
          (Option.guard (Notice.isPrinting listener)) = [] := by
      rw [List.filterMap_eq_filter]
      exact filter_isPrinting_of_not_isPrinting m.listeners listener signal h
    rw [← List.filterMap_eq_filter, filterMap_flatMap_notices hother signals, hsignals,
      List.filterMap_eq_filter]
    cases text? with
    | none => rfl
    | some text =>
      rw [Option.toList_some, List.flatMap_singleton]
      exact filter_isPrinting_notices hlt m.state.output text
  refine ⟨?_, rfl, _, Array.toList_appendList .., hcalls, hevents⟩
  cases text? with
  | none => simpa using houtput
  | some text => simpa using houtput

end Machine

/-! ### Actions -/

namespace Machine

variable {σ : Type}

/-- Nothing is printed where the output stays as it is and the signals are reports. -/
theorem printsTo_remarks (m : Machine σ) {state : State} (h : state.output = m.state.output)
    (remarks : List MachineRemark) :
    m.PrintsTo ({ m with state }.signal (remarks.map Signal.remark)) [] := by
  have hsignals : (remarks.map Signal.remark).filter Signal.isPrinting = [] := by
    rw [List.filter_map, List.map_eq_nil_iff]
    exact List.filter_eq_nil_iff.mpr fun _ _ => Bool.false_ne_true
  have houtput : state.output = m.state.output ++ (none : Option String).getD "" :=
    h.trans String.append_empty.symm
  exact m.printsTo_signal hsignals houtput

theorem printsTo_loadWords (m : Machine σ) (words : Array Word) (address : Nat) :
    m.PrintsTo (m.loadWords words address).2 [] := by
  unfold loadWords
  split
  · exact m.printsTo_remarks (m.state.output_write address words) [.loaded address words.size]
  · exact m.printsTo_remarks rfl [.doesNotFit address words.size]

/-- From the first machine to the second the printouts have been printed, one behind the other, and
all are told of it. -/
def Prints (m m' : Machine σ) (ps : List Printout) : Prop :=
  ∃ texts, Printout.AllPrint m.state.output ps texts ∧ m.PrintsTo m' texts

theorem Prints.append {m m' m'' : Machine σ} {ps ps' : List Printout} (h : m.Prints m' ps)
    (h' : m'.Prints m'' ps') : m.Prints m'' (ps ++ ps') := by
  obtain ⟨texts, hall, hprints⟩ := h
  obtain ⟨texts', hall', hprints'⟩ := h'
  rw [hprints.output] at hall'
  exact ⟨texts ++ texts', hall.append hall', hprints.append hprints'⟩

variable [NumberSource σ]

/-- **A step prints what its printout has to print**, and nothing without one. -/
theorem step_prints (m : Machine σ) : m.Prints m.step.2 m.printout?.toList := by
  obtain ⟨hsignals, houtput⟩ := m.state.printing_step m.source
  refine ⟨_, .of_option m.printout?_rel_text?, ?_⟩
  rw [step_snd]
  exact m.printsTo_signal hsignals houtput

theorem steps_print (m : Machine σ) (n : Nat) : m.Prints (m.steps n).2 (m.stepPrintouts n) := by
  induction n generalizing m with
  | zero => exact ⟨[], .nil, m.printsTo_remarks rfl []⟩
  | succ n ih => exact m.step_prints.append (ih m.step.2)

theorem act_prints (m : Machine σ) (a : Action) : m.Prints (m.act a) (m.stepPrintouts a.bound) := by
  cases a with
  | work w =>
    cases m.worked w with
    | loads hwork _ hbound =>
      rw [act, hwork, Action.bound, hbound]
      exact ⟨[], .nil, m.printsTo_loadWords _ _⟩
    | makesSteps hwork =>
      rw [act, hwork]
      exact m.steps_print w.bound
  | assign a => exact ⟨[], .nil, m.printsTo_remarks (m.state.output_assign a) []⟩

/-- **Actions print what their printouts have to print**, one behind the other. -/
theorem acts_print (m : Machine σ) (actions : List Action) :
    m.Prints (m.acts actions) (m.printouts actions) := by
  induction actions generalizing m with
  | nil => exact ⟨[], .nil, m.printsTo_remarks rfl []⟩
  | cons a actions ih => exact (m.act_prints a).append (ih (m.act a))

/-- **The books are kept.** Let nothing have been printed, as on a fresh machine and on one that has
just been reset. A host makes the machine take some actions, and some instructions are executed that
print. Then the sink has been called once for each of these instructions and not besides: with a
text that is the accumulator in decimal, behind a line break unless it is the first output, or the
one character of that code point; and with all the texts so far. These texts are the output, and
every listener has been told each of them after the sink has been called with it. If there are
numbers only, they stand in the output one on a line. -/
theorem printouts_told (m : Machine σ) (hnothing : m.state.output = "") (actions : List Action) :
    ∃ notices, (m.acts actions).journal.toList = m.journal.toList ++ notices ∧
      let printouts := m.printouts actions
      let calls := notices.filterMap Notice.call?
      let texts := calls.map Prod.fst
      calls.length = printouts.length ∧
      (∀ (k : Nat) (p : Printout), printouts[k]? = some p →
        ∃ text, texts[k]? = some text ∧ p.Prints (String.join (texts.take k)) text) ∧
      (∀ (k : Nat) (call : String × String), calls[k]? = some call →
        call.2 = String.join (texts.take (k + 1))) ∧
      (m.acts actions).state.output = String.join texts ∧
      (∀ listener < m.listeners, notices.filter (Notice.isPrinting listener) =
        calls.flatMap fun call => [.printed call.1 call.2, .heard listener (.output call.1)]) ∧
      ∀ values : List Word, printouts = values.map .number →
        (m.acts actions).state.output =
          "\n".intercalate (values.map fun value => Decimal.ofInt value.toInt) := by
  obtain ⟨texts, hall, houtput, -, notices, hjournal, hcalls, hevents⟩ := m.acts_print actions
  rw [hnothing] at hall houtput hcalls hevents
  rw [String.empty_append] at houtput
  refine ⟨notices, hjournal, ?_⟩
  simp only [hcalls, map_fst_calls]
  refine ⟨?_, fun k p hp => ?_, fun k call hcall => ?_, houtput, hevents, fun values hvalues => ?_⟩
  · rw [← hall.length_eq, ← List.length_map Prod.fst, map_fst_calls]
  · obtain ⟨text, htext, hprints⟩ := hall.exists_getElem? hp
    rw [String.empty_append] at hprints
    exact ⟨text, htext, hprints⟩
  · rw [snd_of_getElem?_calls hcall, String.empty_append]
  · rw [hvalues] at hall
    rw [houtput, hall.join_numbers]

/-- A machine that has printed `7` is reset. Then it prints a number, fails to print a character,
is made to go on by its host, and prints a character and a number, which begins a line. -/
theorem printouts_told_of_failure :
    let start : Machine QueuedInput := { source := {}, listeners := 1 }
    let m := (start.acts [.work (.loadWords #[902] 0), .assign (.accumulator 7),
      .work (.execute .step)]).reset
    let actions := [Action.work (.loadWords #[902, 922, 902] 0), .assign (.accumulator (-42)),
      .work (.execute (.runAtMost 2)), .assign (.halted false), .assign (.accumulator 72),
      .assign (.pointer 1), .work (.execute .step), .work (.execute .step)]
    m.state.output = "" ∧ m.pieces = ["7"] ∧
      m.printouts actions = [.number (-42), .character 72, .number 72] ∧
      (m.acts actions).state.output = "-42H\n72" ∧
      ∃ notices, (m.acts actions).journal.toList = m.journal.toList ++ notices ∧
        (notices.filterMap Notice.call?).length = 3 ∧
        String.join ((notices.filterMap Notice.call?).map Prod.fst) = "-42H\n72" := by
  intro start m actions
  have hnothing : m.state.output = "" := rfl
  have hprintouts : m.printouts actions = [.number (-42), .character 72, .number 72] := by
    decide +kernel
  have houtput : (m.acts actions).state.output = "-42H\n72" := by decide +kernel
  obtain ⟨notices, hjournal, hcalls, -, -, htexts, -⟩ := m.printouts_told hnothing actions
  refine ⟨hnothing, by decide +kernel, hprintouts, houtput, notices, hjournal, ?_, ?_⟩
  · rw [hcalls, hprintouts]
    rfl
  · rw [← htexts, houtput]

end Machine

end LittleMan
