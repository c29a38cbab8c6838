import LittleMan.Assembly.Replay
import Mathlib.Algebra.Ring.Int.Defs

/-!
# Cursors and their high-water mark

A cursor that can be moved back draws its items from a sequence that cannot. What it does is told by
two numbers, which are known from the calls and their answers alone (`Replay.History`): the position,
which is the sum of all moves, and the high-water mark, the largest position that a read has led to.

`Replay.Marked` says what a cursor does when it has this position and this mark: it reads the items
of the list by position, and can be moved up to the mark and no further; the items before the mark
have been drawn, the others not. A call keeps a cursor marked, with the position and the mark that
its answer leads to (`Replay.Marked.call`), and so does every row of calls
(`Replay.Marked.callAll`). It follows that whatever is asked of a cursor, all reads at one position
give the same item, and no item is drawn twice (`Replay.marked_callAll`).
-/

namespace LittleMan.Replay

variable {α : Type}

/-! ### Calls -/

/-- What can be asked of a cursor. -/
inductive Call where
  /-- To read the item at the cursor. -/
  | next
  /-- To be moved by a number of items. -/
  | seek (amount : Int)
  deriving DecidableEq, Repr

/-- What a cursor answers. -/
inductive Answer (α : Type) where
  /-- The item that was read, if there was one. -/
  | read (item : Option α)
  /-- Whether the cursor has been moved. -/
  | sought (accepted : Bool)
  deriving DecidableEq, Repr

/-- The answer to a call, and the cursor afterwards. A cursor that gives no item, or cannot be
moved, is used on as it is. -/
def call (r : Replay α) : Call → Answer α × Replay α
  | .next =>
    match r.next? with
    | some (item, r') => (.read (some item), r')
    | none => (.read none, r)
  | .seek amount =>
    match r.seek? amount with
    | some r' => (.sought true, r')
    | none => (.sought false, r)

/-- Calls with their answers, in order. -/
abbrev History (α : Type) := List (Call × Answer α)

/-- The cursor after calls that are made one after the other. -/
def callAll (r : Replay α) : List Call → Replay α
  | [] => r
  | x :: xs => (r.call x).2.callAll xs

/-- Calls that are made one after the other, with their answers. -/
def history (r : Replay α) : List Call → History α
  | [] => []
  | x :: xs => (x, (r.call x).1) :: (r.call x).2.history xs

theorem map_fst_history (r : Replay α) (calls : List Call) :
    (r.history calls).map Prod.fst = calls := by
  induction calls generalizing r with
  | nil => rfl
  | cons x xs ih => exact congrArg (x :: ·) (ih _)

theorem history_append (r : Replay α) (before after : List Call) :
    r.history (before ++ after) = r.history before ++ (r.callAll before).history after := by
  induction before generalizing r with
  | nil => rfl
  | cons x before ih => exact congrArg (_ :: ·) (ih _)

/-- Every call is answered by the cursor that the calls before have led to. -/
theorem answer_of_history_eq {r : Replay α} {calls : List Call} {front behind : History α}
    {x : Call} {answer : Answer α} (h : r.history calls = front ++ (x, answer) :: behind) :
    r.history (front.map Prod.fst) = front ∧
      ((r.callAll (front.map Prod.fst)).call x).1 = answer := by
  have hcalls : calls = front.map Prod.fst ++ x :: behind.map Prod.fst := by
    rw [← map_fst_history r calls, h, List.map_append, List.map_cons]
  rw [hcalls, history_append, history] at h
  have hlength : (r.history (front.map Prod.fst)).length = front.length := by
    simpa using congrArg List.length (map_fst_history r (front.map Prod.fst))
  obtain ⟨hfront, hbehind⟩ := List.append_inj h hlength
  exact ⟨hfront, congrArg Prod.snd (List.cons.inj hbehind).1⟩

/-! ### Position and mark -/

namespace History

/-- By how many items a call has moved the cursor: one if an item was read, and as far as was asked
if that was accepted. -/
def shift : Call × Answer α → Int
  | (.next, .read (some _)) => 1
  | (.seek amount, .sought true) => amount
  | _ => 0

/-- The sum of the moves. -/
def position (h : History α) : Int := (h.map shift).sum

/-- The positions that reads have led to, counted from the position where the history begins. -/
def reached (start : Int) : History α → List Int
  | [] => []
  | (.next, .read (some _)) :: h => (start + 1) :: reached (start + 1) h
  | entry :: h => reached (start + shift entry) h

/-- The largest position that a read has led to; before the first read it is 0. -/
def high (h : History α) : Int := (reached 0 h).foldl max 0

theorem reached_cons (start : Int) (entry : Call × Answer α) (h : History α) :
    reached start (entry :: h) = reached start [entry] ++ reached (start + shift entry) h := by
  rcases entry with ⟨_ | amount, ⟨_ | item⟩ | accepted⟩ <;> rfl

end History

/-! ### What the cursor does -/

/-- The cursor goes through the items, stands at the position, and has drawn what lies before the
mark. -/
structure Marked (items : List α) (position high : Int) (r : Replay α) : Prop where
  /-- The cursor is not before the first item, -/
  position_nonneg : 0 ≤ position
  /-- nor behind the mark, -/
  position_le : position ≤ high
  /-- which is not behind the last item. -/
  high_le : high ≤ items.length
  /-- The position is the one that the cursor tells. -/
  position_eq : (r.position : Int) = position
  /-- The cursor can be moved as far as the first item, -/
  reach_fst : r.reach.1 = -position
  /-- and by anything less than what the mark is ahead and one more. -/
  reach_snd : r.reach.2 + 1 = high - position + 1
  /-- The items before the mark have been drawn, -/
  drawn : r.drawn.toList = items.take high.toNat
  /-- and the others have not. -/
  fresh : r.fresh = items.drop high.toNat
  /-- A read gives the item at the position, if there is one. -/
  next_fst : (r.call .next).1 = .read items[position.toNat]?
  /-- It leads to the next position, -/
  next_position : position < items.length → ((r.call .next).2.position : Int) = position + 1
  /-- but at the end it changes nothing. -/
  next_end : position = items.length → (r.call .next).2 = r
  /-- A move is accepted unless it leads before the first item or behind the mark. -/
  seek_fst : ∀ amount, (r.call (.seek amount)).1 =
    .sought (decide (0 ≤ position + amount ∧ position + amount ≤ high))
  /-- It leads to the position that was asked for, and nothing is drawn or forgotten. -/
  seek_accepted : ∀ amount, 0 ≤ position + amount ∧ position + amount ≤ high →
    ((r.call (.seek amount)).2.position : Int) = position + amount ∧
      (r.call (.seek amount)).2.drawn = r.drawn ∧ (r.call (.seek amount)).2.fresh = r.fresh
  /-- A move that is refused changes nothing. -/
  seek_refused : ∀ amount, ¬ (0 ≤ position + amount ∧ position + amount ≤ high) →
    (r.call (.seek amount)).2 = r

theorem call_next_cases (r : Replay α) :
    (∃ item r', r.call .next = (.read (some item), r') ∧ r.items[r.position]? = some item ∧
      r'.items = r.items ∧ r'.position = r.position + 1 ∧
        r'.drawn.size = max r.drawn.size (r.position + 1)) ∨
    (r.call .next = (.read none, r) ∧ r.position = r.items.length) := by
  unfold call
  cases hnext : r.next? with
  | some read =>
    obtain ⟨item, r'⟩ := read
    have hadvanced := advanced_of_next? hnext
    exact .inl ⟨item, r', rfl, getElem?_of_next? hnext, hadvanced.items, hadvanced.position,
      size_of_next? hnext⟩
  | none =>
    refine .inr ⟨rfl, ?_⟩
    have hend := next?_eq_none_iff.mp hnext
    rw [rest_eq_drop, List.drop_eq_nil_iff] at hend
    have hle : r.position ≤ r.items.length := by
      have hle := r.position_le
      rw [items, List.length_append, Array.length_toList]
      omega
    omega

theorem call_seek_cases (r : Replay α) (amount : Int) :
    (∃ r', r.call (.seek amount) = (.sought true, r') ∧ 0 ≤ r.position + amount ∧
      r.position + amount ≤ r.drawn.size ∧ (r'.position : Int) = r.position + amount ∧
        r'.drawn = r.drawn ∧ r'.fresh = r.fresh) ∨
    (r.call (.seek amount) = (.sought false, r) ∧
      ¬ (0 ≤ r.position + amount ∧ r.position + amount ≤ r.drawn.size)) := by
  have hreach : (r.reach.1 ≤ amount ∧ amount ≤ r.reach.2) ↔
      0 ≤ r.position + amount ∧ r.position + amount ≤ r.drawn.size := by
    simp only [reach]
    omega
  cases hseek : r.seek? amount with
  | some r' =>
    refine .inl ⟨r', by simp only [call, hseek], ?_⟩
    unfold seek? at hseek
    split at hseek
    · next h =>
      obtain ⟨hnonneg, hle⟩ := hreach.mp h
      obtain rfl := Option.some.inj hseek
      exact ⟨hnonneg, hle, Int.toNat_of_nonneg hnonneg, rfl, rfl⟩
    · cases hseek
  | none =>
    refine .inr ⟨by simp only [call, hseek], fun h => ?_⟩
    have hsome := (dif_pos (hreach.mpr h) : r.seek? amount = _)
    cases hseek.symm.trans hsome

/-- **A cursor is marked by its position and by how many items it has drawn.** -/
theorem marked_self (r : Replay α) : Marked r.items r.position r.drawn.size r where
  position_nonneg := Int.natCast_nonneg _
  position_le := Int.ofNat_le.mpr r.position_le
  high_le := by
    rw [items, List.length_append, Array.length_toList]
    omega
  position_eq := rfl
  reach_fst := rfl
  reach_snd := rfl
  drawn := by simp [items]
  fresh := by simp [items]
  next_fst := by
    rcases r.call_next_cases with ⟨item, r', hcall, hitem, -⟩ | ⟨hcall, hend⟩
    · rw [hcall, Int.toNat_natCast, hitem]
    · rw [hcall, Int.toNat_natCast, hend, List.getElem?_eq_none (Nat.le_refl _)]
  next_position hlt := by
    rcases r.call_next_cases with ⟨item, r', hcall, -, -, hposition, -⟩ | ⟨-, hend⟩
    · rw [hcall, hposition, Int.natCast_succ]
    · omega
  next_end hend := by
    rcases r.call_next_cases with ⟨item, r', -, hitem, -⟩ | ⟨hcall, -⟩
    · rw [List.getElem?_eq_none (by omega)] at hitem
      cases hitem
    · rw [hcall]
  seek_fst amount := by
    rcases r.call_seek_cases amount with ⟨r', hcall, hnonneg, hle, -⟩ | ⟨hcall, hnot⟩
    · rw [hcall, decide_eq_true ⟨hnonneg, hle⟩]
    · rw [hcall, decide_eq_false hnot]
  seek_accepted amount h := by
    rcases r.call_seek_cases amount with ⟨r', hcall, -, -, hsought⟩ | ⟨-, hnot⟩
    · rw [hcall]
      exact hsought
    · exact absurd h hnot
  seek_refused amount h := by
    rcases r.call_seek_cases amount with ⟨r', -, hnonneg, hle, -⟩ | ⟨hcall, -⟩
    · exact absurd ⟨hnonneg, hle⟩ h
    · rw [hcall]

/-- A marked cursor goes through these items and has this position and this mark. -/
theorem Marked.self {items : List α} {position high : Int} {r : Replay α}
    (h : Marked items position high r) :
    r.items = items ∧ (r.position : Int) = position ∧ (r.drawn.size : Int) = high := by
  refine ⟨?_, h.position_eq, ?_⟩
  · rw [Replay.items, h.drawn, h.fresh, List.take_append_drop]
  · have hreach : (r.drawn.size : Int) - r.position + 1 = high - position + 1 := h.reach_snd
    have hposition := h.position_eq
    omega

/-- **A call keeps the cursor marked**: it moves the position by what its answer says, and raises
the mark if a read has led beyond it. -/
theorem Marked.call {items : List α} {position high : Int} {r : Replay α}
    (h : Marked items position high r) (x : Call) :
    Marked items (position + History.shift (x, (r.call x).1))
      ((History.reached position [(x, (r.call x).1)]).foldl max high) (r.call x).2 := by
  obtain ⟨rfl, rfl, rfl⟩ := h.self
  cases x with
  | next =>
    rcases r.call_next_cases with ⟨item, r', hcall, -, hitems, hposition, hsize⟩ | ⟨hcall, -⟩
    · have hmarked := r'.marked_self
      rw [hitems, hposition, hsize] at hmarked
      rw [hcall]
      have hmax : ((max r.drawn.size (r.position + 1) : Nat) : Int) =
          max (r.drawn.size : Int) (r.position + 1) := by omega
      rw [hmax] at hmarked
      exact hmarked
    · rw [hcall]
      simpa [History.shift, History.reached] using r.marked_self
  | seek amount =>
    rcases r.call_seek_cases amount with ⟨r', hcall, -, -, hposition, hdrawn, hfresh⟩ | ⟨hcall, -⟩
    · have hmarked := r'.marked_self
      rw [Replay.items, hdrawn, hfresh, hposition] at hmarked
      rw [hcall]
      exact hmarked
    · rw [hcall]
      simpa [History.shift, History.reached] using r.marked_self

/-- **So do calls that are made one after the other.** -/
theorem Marked.callAll {items : List α} {position high : Int} {r : Replay α}
    (h : Marked items position high r) (calls : List Call) :
    Marked items (position + History.position (r.history calls))
      ((History.reached position (r.history calls)).foldl max high) (r.callAll calls) := by
  induction calls generalizing position high r with
  | nil => simpa [History.position, history, History.reached, Replay.callAll] using h
  | cons x xs ih =>
    have hmarked := ih (h.call x)
    rw [history, History.reached_cons, List.foldl_append, History.position, List.map_cons,
      List.sum_cons, ← Int.add_assoc]
    exact hmarked

/-! ### Drawing -/

/-- The items that a call takes from those that have not been drawn. -/
def draws (r : Replay α) (x : Call) : List α :=
  r.fresh.take (r.fresh.length - (r.call x).2.fresh.length)

/-- The items that calls draw one after the other. -/
def drawsAll (r : Replay α) : List Call → List α
  | [] => []
  | x :: xs => r.draws x ++ (r.call x).2.drawsAll xs

/-- Items are drawn from the front. -/
theorem fresh_call (r : Replay α) (x : Call) : (r.call x).2.fresh <:+ r.fresh := by
  cases x with
  | next =>
    rcases r.call_next_cases with ⟨item, r', hcall, -, hitems, -, hsize⟩ | ⟨hcall, -⟩
    · rw [hcall, fresh_eq_drop r', fresh_eq_drop r, hitems, hsize]
      exact List.drop_suffix_drop_left _ (Nat.le_max_left _ _)
    · exact ⟨[], congrArg (·.2.fresh) hcall⟩
  | seek amount =>
    rcases r.call_seek_cases amount with ⟨r', hcall, -, -, -, -, hfresh⟩ | ⟨hcall, -⟩
    · exact ⟨[], (congrArg (·.2.fresh) hcall).trans hfresh⟩
    · exact ⟨[], congrArg (·.2.fresh) hcall⟩

/-- **What calls draw goes in front of what they leave.** -/
theorem drawsAll_append (r : Replay α) (calls : List Call) :
    r.drawsAll calls ++ (r.callAll calls).fresh = r.fresh := by
  induction calls generalizing r with
  | nil => rfl
  | cons x xs ih =>
    obtain ⟨taken, htaken⟩ := r.fresh_call x
    have hdraws : r.draws x = taken := by
      rw [draws, ← htaken, List.length_append, Nat.add_sub_cancel, List.take_left]
    rw [drawsAll, hdraws, List.append_assoc, ← htaken]
    exact congrArg (taken ++ ·) (ih (r.call x).2)

/-! ### All calls -/

/-- **A cursor goes through its list up to a high-water mark.** Let calls be made of a cursor at the
start of a list, of which those that are refused change nothing. Take the sum of the moves for the
position, and the largest position that a read has led to for the mark.

- The cursor then is marked by these: it reads by position, is moved up to the mark, and has drawn
  just what lies before it.
- Every read has given the item at its position, so that reading an item again gives the same one.
- The items that the calls have drawn, one after the other, are those before the mark: each of them
  once, and no other. -/
theorem marked_callAll (items : List α) (calls : List Call) :
    Marked items (History.position ((ofList items).history calls))
        (History.high ((ofList items).history calls)) ((ofList items).callAll calls) ∧
      (∀ front item behind,
        (ofList items).history calls = front ++ (.next, .read item) :: behind →
          item = items[(History.position front).toNat]?) ∧
      (ofList items).drawsAll calls =
        items.take (History.high ((ofList items).history calls)).toNat := by
  have hmarked (calls : List Call) :
      Marked items (History.position ((ofList items).history calls))
        (History.high ((ofList items).history calls)) ((ofList items).callAll calls) := by
    have hstart := (ofList items).marked_self.callAll calls
    simpa [ofList, Replay.items, History.high] using hstart
  refine ⟨hmarked calls, fun front item behind h => ?_, ?_⟩
  · obtain ⟨hfront, hanswer⟩ := answer_of_history_eq h
    have hread := (hmarked (front.map Prod.fst)).next_fst
    rw [hanswer, hfront] at hread
    exact Answer.read.inj hread
  · have hdraws : (ofList items).drawsAll calls ++ ((ofList items).callAll calls).fresh = items :=
      (ofList items).drawsAll_append calls
    rw [(hmarked calls).fresh] at hdraws
    exact List.append_cancel_right (hdraws.trans (List.take_append_drop _ _).symm)

/-- A move beyond the mark is refused, and what has been drawn is read again. -/
example : (ofList ['a', 'b']).history [.next, .seek 1, .seek (-1), .next, .next, .next] =
    [(.next, .read (some 'a')), (.seek 1, .sought false), (.seek (-1), .sought true),
      (.next, .read (some 'a')), (.next, .read (some 'b')), (.next, .read none)] := by
  decide +kernel

end LittleMan.Replay
