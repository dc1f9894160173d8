import CamlIndex.Proofs.Bytes
import CamlIndex.Proofs.Lines
import CamlIndex.ScopeStack
import Mathlib.Data.List.TakeWhile

/-!
# Indices into line starts and frames

Two more parts of the program can be run on arrays.  A binary search in the
array of line starts reports where an offset is or where it would have to be
put, and in the second case the line before that is meant.  The stack of
scopes can be an array whose innermost frame is the last one: a scan from its
end gives an index, and the array is cut there.  Here every index is looked up
and every difference checked, and nothing comes out if one is out of range.

* `position_of_search` — whatever index a search reports, the line and the
  column exist, and are those of `LineTable.position`;
* `indexedPopToNamed_reverse` and its neighbours — a scan of the array finds a
  valid index or none, and does what the operation on the list of frames does.
-/

namespace CamlIndex

/-! ## Searching the line starts -/

/-- What a binary search for `key` in a sorted list may report: the index of the
key, or the index in front of which it would have to be put. -/
def SearchFits (xs : List Nat) (key : Nat) : Except Nat Nat → Prop
  | .ok i => xs[i]? = some key
  | .error i =>
    i ≤ xs.length ∧ (∀ (j x : Nat), j < i → xs[j]? = some x → x < key)
      ∧ ∀ (j x : Nat), i ≤ j → xs[j]? = some x → key < x

/-- The position that is read off what a search among the line starts reports. -/
def positionAt? (starts : List Nat) (offset : Nat) (report : Except Nat Nat) : Option Position := do
  let line ← match report with
    | .ok i => some i
    | .error i => checkedSub i 1
  let start ← starts[line]?
  let column ← checkedSub offset start
  return ⟨line, column⟩

/-- A sorted list can always be searched. -/
theorem exists_searchFits {xs : List Nat} (hxs : xs.Pairwise (· < ·)) (key : Nat) :
    ∃ report, SearchFits xs key report := by
  induction xs with
  | nil => exact ⟨.error 0, by simp [SearchFits]⟩
  | cons x xs ih =>
      obtain ⟨hhead, htail⟩ := List.pairwise_cons.mp hxs
      rcases Nat.lt_trichotomy key x with hlt | rfl | hgt
      · refine ⟨.error 0, Nat.zero_le _, fun j _ hj _ => absurd hj (Nat.not_lt_zero j), ?_⟩
        intro j y _ hy
        rcases List.mem_cons.mp (List.mem_of_getElem? hy) with rfl | hmem
        · exact hlt
        · exact Nat.lt_trans hlt (hhead y hmem)
      · exact ⟨.ok 0, rfl⟩
      · obtain ⟨report, hreport⟩ := ih htail
        cases report with
        | ok i => exact ⟨.ok (i + 1), by simpa [SearchFits] using hreport⟩
        | error i =>
            obtain ⟨hi, hbelow, habove⟩ := hreport
            refine ⟨.error (i + 1), Nat.succ_le_succ hi, ?_, ?_⟩
            · intro j y hj hy
              cases j with
              | zero =>
                  cases hy
                  exact hgt
              | succ j => exact hbelow j y (by omega) (by simpa using hy)
            · intro j y hj hy
              cases j with
              | zero => omega
              | succ j => exact habove j y (by omega) (by simpa using hy)

/-- Line starts are strictly increasing. -/
theorem startsAfterNewlines_increasing (offset : Nat) (cs : List Char) :
    (startsAfterNewlines offset cs).Pairwise (· < ·) := by
  induction cs generalizing offset with
  | nil => exact .nil
  | cons c cs ih =>
      rw [startsAfterNewlines]
      split
      · exact .cons (fun start hstart => lt_of_mem_startsAfterNewlines hstart) (ih _)
      · exact ih _

namespace LineTable

theorem starts_increasing (text : String) : (ofText text).starts.Pairwise (· < ·) :=
  .cons (fun _ hstart => lt_of_mem_startsAfterNewlines hstart)
    (startsAfterNewlines_increasing 0 text.toList)

/-- The walk along the line starts stops at the last one that the offset has reached. -/
theorem locate_eq {offset start : Nat} {later : List Nat}
    (hstarts : (start :: later).Pairwise (· < ·)) {i reached : Nat} (line : Nat)
    (hreached : (start :: later)[i]? = some reached) (hle : reached ≤ offset)
    (hlater : ∀ j next : Nat, i < j → (start :: later)[j]? = some next → offset < next) :
    locate offset line start later = ⟨line + i, offset - reached⟩ := by
  induction later generalizing start i line with
  | nil =>
      cases i with
      | zero =>
          cases hreached
          rfl
      | succ i => simp at hreached
  | cons next later ih =>
      rw [locate]
      cases i with
      | zero =>
          cases hreached
          have : offset < next := hlater 1 next (by decide) rfl
          rw [if_neg (by omega)]
          rfl
      | succ i =>
          have htail := (List.pairwise_cons.mp hstarts).2
          have hreached' : (next :: later)[i]? = some reached := by simpa using hreached
          have hnext : next ≤ reached := by
            rcases List.mem_cons.mp (List.mem_of_getElem? hreached') with rfl | hmem
            · exact Nat.le_refl _
            · exact Nat.le_of_lt ((List.pairwise_cons.mp htail).1 _ hmem)
          rw [if_pos (by omega), ih htail (line + 1) hreached' fun j x hj hx =>
            hlater (j + 1) x (by omega) (by simpa using hx)]
          congr 1
          omega

/-- **Whatever a search among the line starts reports, the position can be read
off it.** -/
theorem position_of_search (text : String) (offset : Nat) {report : Except Nat Nat}
    (h : SearchFits (ofText text).starts offset report) :
    positionAt? (ofText text).starts offset report = some ((ofText text).position offset) := by
  have hstarts := starts_increasing text
  cases report with
  | ok i =>
      have hposition := locate_eq hstarts 0 h (Nat.le_refl offset) fun j next hj hnext => by
        have hnext : (ofText text).starts[j]? = some next := hnext
        obtain ⟨hi, hget⟩ := List.getElem?_eq_some_iff.mp h
        obtain ⟨hj', hget'⟩ := List.getElem?_eq_some_iff.mp hnext
        have := List.pairwise_iff_getElem.mp hstarts i j hi hj' hj
        omega
      rw [position, hposition, positionAt?]
      simp only [Option.bind_eq_bind, Option.bind_some]
      rw [show (ofText text).starts[i]? = some offset from h, Option.bind_some,
        checkedSub_of_le (Nat.le_refl offset), Nat.zero_add]
      rfl
  | error i =>
      obtain ⟨hi, hbelow, habove⟩ := h
      have hpos : 0 < i := by
        rcases Nat.eq_zero_or_pos i with rfl | hpos
        · exact absurd (habove 0 0 (Nat.le_refl 0) rfl) (Nat.not_lt_zero offset)
        · exact hpos
      have hlt : i - 1 < (ofText text).starts.length := by omega
      have hget := List.getElem?_eq_getElem hlt
      have hbefore := hbelow (i - 1) _ (by omega) hget
      have hposition := locate_eq hstarts 0 hget (Nat.le_of_lt hbefore) fun j next hj hnext =>
        habove j next (by omega) hnext
      rw [position, hposition, positionAt?]
      simp only [Option.bind_eq_bind]
      rw [checkedSub_of_le hpos, Option.bind_some, hget, Option.bind_some,
        checkedSub_of_le (Nat.le_of_lt hbefore), Nat.zero_add]
      rfl

end LineTable

/-! ## Scanning the frames -/

/-- The index of the last element that satisfies a predicate. -/
def lastIndex? {α : Type} (p : α → Bool) : List α → Option Nat
  | [] => none
  | x :: xs =>
    match lastIndex? p xs with
    | some i => some (i + 1)
    | none => if p x then some 0 else none

theorem lastIndex?_append_singleton {α : Type} (p : α → Bool) (xs : List α) (x : α) :
    lastIndex? p (xs ++ [x]) = if p x then some xs.length else lastIndex? p xs := by
  induction xs with
  | nil => rfl
  | cons y xs ih =>
      rw [List.cons_append, lastIndex?, ih]
      by_cases hx : p x
      · simp [hx]
      · simp [hx, lastIndex?]

/-- A scan from the end of an array passes what lies above the element that it
looks for; the array up to there is the list below that element. -/
theorem lastIndex?_reverse {α : Type} (p : α → Bool) (xs : List α) :
    (xs.dropWhile (! p ·) = [] ∧ lastIndex? p xs.reverse = none)
      ∨ ∃ x below, xs.dropWhile (! p ·) = x :: below
        ∧ lastIndex? p xs.reverse = some below.length
        ∧ xs.reverse[below.length]? = some x
        ∧ xs.reverse.take below.length = below.reverse := by
  induction xs with
  | nil => exact .inl ⟨rfl, rfl⟩
  | cons y xs ih =>
      rw [List.reverse_cons, lastIndex?_append_singleton, List.dropWhile_cons]
      by_cases hy : p y
      · exact .inr ⟨y, xs, by simp [hy]⟩
      · simp only [hy, Bool.not_false, if_true]
        rcases ih with hnone | ⟨x, below, hdrop, hindex, hget, htake⟩
        · exact .inl hnone
        · obtain ⟨hlt, -⟩ := List.getElem?_eq_some_iff.mp hget
          refine .inr ⟨x, below, hdrop, hindex, ?_, ?_⟩
          · rw [List.getElem?_append_left hlt, hget]
          · rw [List.take_append_of_le_length (Nat.le_of_lt hlt), htake]

/-- Runs a scan from the end of an array of frames and looks up the frame at
the index that it gives; nothing if there is no such frame. -/
def scanned {ρ : Type} (p : Frame → Bool) (frames : List Frame) (found : Nat → Frame → ρ)
    (absent : ρ) : Option ρ :=
  match lastIndex? p frames with
  | some i => frames[i]?.map (found i)
  | none => some absent

/-- The innermost named frame, by a scan. -/
def indexedNearestNamed (frames : List Frame) : Option (Option Frame) :=
  scanned Frame.isNamed frames (fun _ frame => some frame) none

/-- Cuts the array in front of its innermost named frame. -/
def indexedPopToNamed (frames : List Frame) : Option (List Frame × Mode) :=
  scanned Frame.isNamed frames (fun i frame => (frames.take i, frame.resume)) ([], .topLevel)

/-- Cuts the array in front of its innermost boundary. -/
def indexedPopBoundary (frames : List Frame) : Option (List Frame × Mode × Option Role) :=
  scanned Frame.boundary frames (fun i frame => (frames.take i, frame.resume, some frame.role))
    ([], .topLevel, none)

/-- Cuts the array behind its innermost match frame. -/
def indexedReturnToMatch (frames : List Frame) : Option (Option (List Frame × Mode)) :=
  scanned (·.role == .matchScope) frames
    (fun i frame => some (frames.take (i + 1), frame.resume)) none

namespace ScopeStack

theorem indexedNearestNamed_reverse (stack : ScopeStack) :
    indexedNearestNamed stack.frames.reverse = some stack.nearestNamed? := by
  rw [indexedNearestNamed, scanned, nearestNamed?, List.find?_eq_head?_dropWhile_not]
  rcases lastIndex?_reverse Frame.isNamed stack.frames with
    ⟨hdrop, hindex⟩ | ⟨frame, outer, hdrop, hindex, hget, -⟩
  · simp [hindex, hdrop]
  · simp [hindex, hdrop, hget]

theorem indexedPopToNamed_reverse (stack : ScopeStack) :
    indexedPopToNamed stack.frames.reverse =
      some (stack.popToNamed.1.frames.reverse, stack.popToNamed.2) := by
  rw [indexedPopToNamed, scanned, popToNamed]
  rcases lastIndex?_reverse Frame.isNamed stack.frames with
    ⟨hdrop, hindex⟩ | ⟨frame, outer, hdrop, hindex, hget, htake⟩
  · simp [hindex, hdrop]
  · simp [hindex, hdrop, hget, htake]

theorem indexedPopBoundary_reverse (stack : ScopeStack) :
    indexedPopBoundary stack.frames.reverse =
      some (stack.popBoundary.1.frames.reverse, stack.popBoundary.2) := by
  rw [indexedPopBoundary, scanned, popBoundary]
  rcases lastIndex?_reverse Frame.boundary stack.frames with
    ⟨hdrop, hindex⟩ | ⟨frame, outer, hdrop, hindex, hget, htake⟩
  · simp [hindex, hdrop]
  · simp [hindex, hdrop, hget, htake]

theorem indexedReturnToMatch_reverse (stack : ScopeStack) :
    indexedReturnToMatch stack.frames.reverse =
      some (stack.returnToMatch?.map fun (left, resume) => (left.frames.reverse, resume)) := by
  rw [indexedReturnToMatch, scanned, returnToMatch?]
  simp only [bne]
  rcases lastIndex?_reverse (·.role == .matchScope) stack.frames with
    ⟨hdrop, hindex⟩ | ⟨frame, outer, hdrop, hindex, hget, htake⟩
  · simp [hindex, hdrop]
  · have hkept : stack.frames.reverse.take (outer.length + 1) = outer.reverse ++ [frame] := by
      rw [List.take_add_one, htake, hget]
      rfl
    simp [hindex, hdrop, hget, hkept]

end ScopeStack

end CamlIndex
