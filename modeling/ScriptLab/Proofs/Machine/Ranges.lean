import ScriptLab.Proofs.Machine.Action
import ScriptLab.Proofs.Number.Whole

/-!
# Ranges

A range goes from the floor of one double to that of another in steps of one, with both ends, or is
refused for its length. The floors are first forced into the integers of sixty-four bits. Where they are
among these, the ends are exactly the floors.
-/

namespace ScriptLab.Machine

open Number (form ofInt value?)
open Program
open Text (Pos)

variable {ω : Type}

/-! ## Items -/

/-- The items of an array are the numbers from one whole number to another in steps of one, with both of
them. -/
structure Counts (first last : Int) (items : Array Value) : Prop where
  size : items.size = (last - first).natAbs + 1
  item : ∀ k < items.size,
    items[k]? = some (.num (ofInt (if first ≤ last then first + k else first - k)))

section Items

variable {first last : Int} {items : Array Value}

theorem Counts.first_item (h : Counts first last items) : items[0]? = some (.num (ofInt first)) := by
  rw [h.item 0 (by rw [h.size]; omega)]
  simp

theorem Counts.last_item (h : Counts first last items) :
    items.back? = some (.num (ofInt last)) := by
  have hsize := h.size
  have hlast : (if first ≤ last then first + (items.size - 1 : Nat)
      else first - (items.size - 1 : Nat)) = last := by
    split <;> omega
  rw [Array.back?_eq_getElem?, h.item _ (by omega), hlast]

/-- Between a number and itself there is this number only. -/
theorem Counts.eq_singleton (h : Counts first first items) : items = #[.num (ofInt first)] := by
  have hsize : items.size = 1 := by
    rw [h.size]
    omega
  obtain ⟨item, rfl⟩ := Array.size_eq_one_iff.1 hsize
  have hitem : item = .num (ofInt first) := Option.some.inj h.first_item
  rw [hitem]

theorem rangeItems_of_le (h : maxRangeLength ≤ (last - first).natAbs) :
    rangeItems first last = .error .rangeTooLong :=
  if_pos h

theorem rangeItems_of_lt (h : (last - first).natAbs < maxRangeLength) :
    ∃ items, rangeItems first last = .ok items ∧ Counts first last items := by
  refine ⟨_, if_neg (Nat.not_le.2 h), by simp, fun k hk => ?_⟩
  rw [Array.size_map, Array.size_range] at hk
  rw [Array.getElem?_map, Array.getElem?_range, if_pos hk]
  split <;> simp [Int.sub_eq_add_neg]

end Items

/-! ## Ends -/

/-- The end that a double gives a range: its floor, if that is an integer of sixty-four bits. Other
floors and infinities give the nearest of these integers, and what is not a number gives zero. -/
structure IsEnd (x : Float) (i : Int) : Prop where
  nan : form x = .nan → i = 0
  infinite : ∀ negative, form x = .infinite negative → i = if negative then -2 ^ 63 else 2 ^ 63 - 1
  finite : ∀ v, value? x = some v → i = max (-2 ^ 63) (min (2 ^ 63 - 1) ⌊v⌋)
  exact : ∀ v, value? x = some v → -2 ^ 63 ≤ ⌊v⌋ → ⌊v⌋ < 2 ^ 63 →
    i = ⌊v⌋ ∧ value? (ofInt i) = some (⌊v⌋ : ℚ) ∧ value? (Number.floor x) = some (⌊v⌋ : ℚ)

theorem isEnd_rangeEnd (x : Float) : IsEnd x (rangeEnd x) where
  nan h := by
    rw [rangeEnd, Number.clampedFloor, h]
  infinite negative h := by
    rw [rangeEnd, Number.clampedFloor, h]
    cases negative <;> rfl
  finite v h := Number.clampedFloor_eq _ _ h
  exact v h hlow hhigh := by
    have hforced : rangeEnd x = max (-2 ^ 63) (min (2 ^ 63 - 1) ⌊v⌋) := Number.clampedFloor_eq _ _ h
    have hend : rangeEnd x = ⌊v⌋ := by omega
    rw [hend]
    exact ⟨rfl, Number.value?_ofInt_floor h, Number.value?_floor h⟩

/-! ## The provided function -/

theorem callBuiltin_range (s : Setting ω) (a b : Float) (pos : Pos) (p : Progress ω) :
    callBuiltin s .range [.num a, .num b] pos p =
      match rangeItems (rangeEnd a) (rangeEnd b) with
      | .ok items => .ok (.arr p.store.arrays.size) { p with store := (p.store.newArray items).2 }
      | .error cause => .error (.fault ⟨cause, pos⟩) p := by
  change (settle pos (rangeItems (rangeEnd a) (rangeEnd b)) >>= fun items =>
    create (·.newArray items)) p = _
  rw [bind_apply]
  cases rangeItems (rangeEnd a) (rangeEnd b) <;> rfl

/-- A range has both of its ends. It is refused, and nothing is changed, exactly if it would have more
than `2 ^ 20` items. Else it is a new array with one item more than the ends are apart, from the first end
to the last one in steps of one. -/
theorem range_has_ends (s : Setting ω) (a b : Float) (pos : Pos) (p : Progress ω) :
    ∃ i j, IsEnd a i ∧ IsEnd b j ∧
      ((j - i).natAbs + 1 > 2 ^ 20 →
        callBuiltin s .range [.num a, .num b] pos p = .error (.fault ⟨.rangeTooLong, pos⟩) p) ∧
      ((j - i).natAbs + 1 ≤ 2 ^ 20 → ∃ items,
        callBuiltin s .range [.num a, .num b] pos p =
          .ok (.arr p.store.arrays.size) { p with store := (p.store.newArray items).2 } ∧
        Counts i j items ∧ items[0]? = some (.num (ofInt i)) ∧
        items.back? = some (.num (ofInt j))) := by
  have hmax : maxRangeLength = 2 ^ 20 := rfl
  refine ⟨rangeEnd a, rangeEnd b, isEnd_rangeEnd a, isEnd_rangeEnd b, fun hlong => ?_, fun hshort => ?_⟩
  · rw [callBuiltin_range, rangeItems_of_le (by omega)]
  · have hlt : (rangeEnd b - rangeEnd a).natAbs < maxRangeLength := by omega
    obtain ⟨items, hitems, hcounts⟩ := rangeItems_of_lt hlt
    refine ⟨items, ?_, hcounts, hcounts.first_item, hcounts.last_item⟩
    rw [callBuiltin_range, hitems]

/-- Ends that are too large are brought together: between `10 ^ 19` and twice as much there is one item,
which is neither of them. -/
theorem range_misses_far_ends :
    value? (ofInt (10 ^ 19)) = some (10 ^ 19) ∧ value? (ofInt (2 * 10 ^ 19)) = some (2 * 10 ^ 19) ∧
      callBuiltin (⟨{}, none, fun _ _ => (), 0⟩ : Setting Unit) .range
          [.num (ofInt (10 ^ 19)), .num (ofInt (2 * 10 ^ 19))] .start ⟨{}, 0, [], 0, 0, false, false⟩ =
        .ok (.arr 0) ⟨{ arrays := #[#[.num (ofInt (2 ^ 63 - 1))]] }, 0, [], 0, 0, false, false⟩ ∧
      value? (ofInt (2 ^ 63 - 1)) = some (2 ^ 63) := by
  have hone : form (ofInt (10 ^ 19)) = .finite false 4882812500000000 11 := by decide +kernel
  have htwo : form (ofInt (2 * 10 ^ 19)) = .finite false 4882812500000000 12 := by decide +kernel
  have hlast : form (ofInt (2 ^ 63 - 1)) = .finite false (2 ^ 52) 11 := by decide +kernel
  have hfirst : rangeEnd (ofInt (10 ^ 19)) = 2 ^ 63 - 1 := by decide +kernel
  have hsecond : rangeEnd (ofInt (2 * 10 ^ 19)) = 2 ^ 63 - 1 := by decide +kernel
  refine ⟨?_, ?_, ?_, ?_⟩
  · rw [value?, hone]
    norm_num [Number.Form.value?]
  · rw [value?, htwo]
    norm_num [Number.Form.value?]
  · have hnear : ((2 ^ 63 - 1 : Int) - (2 ^ 63 - 1)).natAbs < maxRangeLength := by decide
    obtain ⟨items, hitems, hcounts⟩ := rangeItems_of_lt hnear
    rw [callBuiltin_range, hfirst, hsecond, hitems, hcounts.eq_singleton]
    rfl
  · rw [value?, hlast]
    norm_num [Number.Form.value?]

end ScriptLab.Machine
