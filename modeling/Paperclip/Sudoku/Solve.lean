import Mathlib.Data.Fintype.Card
import Paperclip.Sudoku.Grid
import Paperclip.Sudoku.Rng

/-!
# Solving, and counting solutions

One backtracking search, which picks the most constrained empty cell first.

* `Search`: the digits placed so far, and what each unit still allows. `mostConstrained`: the cell to
  go on with, and its candidates.
* `solutions`: how many solutions a grid has, counted no further than a limit.
* `complete`: a complete grid drawn from a stream.

Each level of the search fills a cell, so 82 levels are enough, and `none` means that they were not:
`count` and `fill` take as fuel the levels that are left.
-/

namespace Paperclip.Sudoku

/-- The search state: the digit in each cell, `0` for empty, and the digits already used. -/
structure Search extends Units where
  values : Vector ℕ 81

namespace Search

/-- The state with no digit placed. -/
def blank : Search := ⟨.unused, .replicate 81 0⟩

def place (search : Search) (cell : Cell) (value : ℕ) : Search :=
  ⟨search.toUnits.place cell value, search.values.set cell.index value⟩

def lift (search : Search) (cell : Cell) (value : ℕ) : Search :=
  ⟨search.toUnits.lift cell value, search.values.set cell.index 0⟩

/-- The cells of `load`. -/
def loadFrom (grid : Grid) : List Cell → Search → Option Search
  | [], search => some search
  | cell :: rest, search =>
    match grid.get cell with
    | none => loadFrom grid rest search
    | some digit =>
      if search.used cell &&& digit.mask ≠ 0 then none
      else loadFrom grid rest (search.place cell digit.value)

/-- Loads `grid`, or `none` if it already breaks a constraint. -/
def load (grid : Grid) : Option Search := loadFrom grid Cell.all blank

/-- How many bits are set. -/
def countOnes (bits : BitVec 16) : ℕ := (List.range 16).countP bits.getLsbD

/-- What `cell` may still hold. -/
def candidates (search : Search) (cell : Cell) : BitVec 16 := ALL_DIGITS &&& ~~~search.used cell

/-- The cells of `mostConstrained`, with the best cell so far. -/
def mostConstrainedFrom (search : Search) :
    List Cell → Option (Cell × BitVec 16 × ℕ) → Option (Cell × BitVec 16)
  | [], best => best.map fun (cell, candidates, _) => (cell, candidates)
  | cell :: rest, best =>
    if search.values[cell.index] ≠ 0 then mostConstrainedFrom search rest best
    else
      let candidates := search.candidates cell
      let count := countOnes candidates
      if count = 0 then some (cell, 0)
      else
        let best := match best with
          | none => some (cell, candidates, count)
          | some (held, bits, fewest) =>
            if count < fewest then some (cell, candidates, count) else some (held, bits, fewest)
        if count = 1 then best.map fun (cell, candidates, _) => (cell, candidates)
        else mostConstrainedFrom search rest best

/-- The empty cell with the fewest candidates, and that candidate mask. `none` when the grid is full. -/
def mostConstrained (search : Search) : Option (Cell × BitVec 16) :=
  mostConstrainedFrom search Cell.all none

/-- The digits of `count`: each candidate is placed, counted on from and lifted. -/
def countEach (limit : ℕ) (count : Search → ℕ → Option (Search × ℕ)) (cell : Cell)
    (candidates : BitVec 16) : List Digit → Search → ℕ → Option (Search × ℕ)
  | [], search, found => some (search, found)
  | digit :: rest, search, found =>
    if candidates &&& digit.mask = 0 then countEach limit count cell candidates rest search found
    else
      match count (search.place cell digit.value) found with
      | none => none
      | some (search, found) =>
        let search := search.lift cell digit.value
        if limit ≤ found then some (search, found)
        else countEach limit count cell candidates rest search found

/-- Counts solutions into `found`, stopping once it reaches `limit`. -/
def count (limit : ℕ) : (fuel : ℕ) → Search → (found : ℕ) → Option (Search × ℕ)
  | 0, _, _ => none
  | fuel + 1, search, found =>
    if limit ≤ found then some (search, found)
    else
      match search.mostConstrained with
      | none => some (search, found + 1)
      | some (cell, candidates) =>
        countEach limit (count limit fuel) cell candidates Digit.ALL search found

section

variable {σ : Type}

/-- The digits of `fill`: each is placed and filled on from, and lifted if that fails. -/
def fillEach (fill : Search → Option σ → Option (Bool × Search × Option σ)) (cell : Cell) :
    List Digit → Search → Option σ → Option (Bool × Search × Option σ)
  | [], search, rng => some (false, search, rng)
  | digit :: rest, search, rng =>
    match fill (search.place cell digit.value) rng with
    | none => none
    | some (true, search, rng) => some (true, search, rng)
    | some (false, search, rng) => fillEach fill cell rest (search.lift cell digit.value) rng

/-- Fills the grid, taking the first solution found. With a stream, the order of the candidates is
shuffled. -/
def fill (next : σ → BitVec 64 × σ) :
    (fuel : ℕ) → Search → Option σ → Option (Bool × Search × Option σ)
  | 0, _, _ => none
  | fuel + 1, search, rng =>
    match search.mostConstrained with
    | none => some (true, search, rng)
    | some (cell, candidates) =>
      let order := Digit.ALL.filter fun digit => candidates &&& digit.mask ≠ 0
      match rng with
      | some stream =>
        let (order, stream) := shuffle next order stream
        fillEach (fill next fuel) cell order search (some stream)
      | none => fillEach (fill next fuel) cell order search none

end

/-- The cells of `grid`. -/
def gridFrom (search : Search) : List Cell → Grid → Grid
  | [], grid => grid
  | cell :: rest, grid =>
    gridFrom search rest (grid.set cell (Digit.new search.values[cell.index]))

/-- The grid of the digits placed so far. -/
def grid (search : Search) : Grid := gridFrom search Cell.all .EMPTY

end Search

/-- The levels that a search has at most. -/
def LEVELS : ℕ := 82

/-- How many solutions `grid` has, counting no further than `limit`. -/
def solutions (grid : Grid) (limit : ℕ) : Option ℕ :=
  match Search.load grid with
  | none => some 0
  | some search => (search.count limit LEVELS 0).map fun (_, found) => found

/-- A complete, legal grid drawn from a stream. -/
def complete {σ : Type} (next : σ → BitVec 64 × σ) (rng : σ) : Option (Grid × σ) :=
  (Search.load .EMPTY).bind fun search =>
    match search.fill next LEVELS (some rng) with
    | some (_, search, some rng) => some (search.grid, rng)
    | _ => none

/-! ## What a search stands for -/

open Extension Function

/-- `bits` are the digits that the cells of each unit have. -/
def MarksBy (bits : Vector (BitVec 16) 9) (unit : Cell → Fin 9) (has : Cell → Option Digit) : Prop :=
  ∀ u (digit : Digit), bits[u].getLsbD digit.value = true ↔
    ∃ cell, unit cell = u ∧ has cell = some digit

/-- A search that has placed `has`, which breaks no constraint. -/
structure Loads (search : Search) (has : Cell → Option Digit) : Prop where
  proper : Proper Cell.Peer has
  values : ∀ cell, search.values[cell.index] = (has cell).elim 0 Digit.value
  rows : MarksBy search.rows Cell.row has
  columns : MarksBy search.columns Cell.column has
  blocks : MarksBy search.blocks Cell.block has

section

variable {search : Search} {has : Cell → Option Digit} {cell : Cell} {digit : Digit}

theorem MarksBy.place {bits : Vector (BitVec 16) 9} {unit : Cell → Fin 9}
    (h : MarksBy bits unit has) (hopen : has cell = none) :
    MarksBy (bits.set (unit cell) (bits[unit cell] ||| BitVec.twoPow 16 digit.value)) unit
      (update has cell (some digit)) := by
  have hother (other : Cell) (d : Digit) (hd : has other = some d) :
      update has cell (some digit) other = some d := by
    rw [update_of_ne, hd]
    rintro rfl
    rw [hopen] at hd
    cases hd
  intro u d
  by_cases hu : unit cell = u
  · subst hu
    have hbit : (BitVec.twoPow 16 digit.value).getLsbD d.value = decide (digit.value = d.value) :=
      Digit.getLsbD_mask digit d.value
    simp only [Fin.getElem_fin, Vector.getElem_set_self, BitVec.getLsbD_or, hbit,
      Bool.or_eq_true, decide_eq_true_eq]
    constructor
    · rintro (hold | hnew)
      · obtain ⟨other, hunit, hd⟩ := (h _ d).1 hold
        exact ⟨other, hunit, hother other d hd⟩
      · exact ⟨cell, rfl, by rw [update_self, Digit.value_inj hnew]⟩
    · rintro ⟨other, hunit, hd⟩
      by_cases hc : other = cell
      · subst hc
        rw [update_self] at hd
        exact .inr (congrArg Digit.value (Option.some.inj hd))
      · rw [update_of_ne hc] at hd
        exact .inl ((h _ d).2 ⟨other, hunit, hd⟩)
  · have hval : (unit cell : ℕ) ≠ u := fun he => hu (Fin.ext he)
    simp only [Fin.getElem_fin, Vector.getElem_set_ne _ _ hval]
    refine (h u d).trans (exists_congr fun other => and_congr_right fun hunit => ?_)
    rw [update_of_ne]
    rintro rfl
    exact hu hunit

/-- The digits that a cell's row, column and block have. -/
theorem Loads.used (h : Loads search has) :
    (search.used cell).getLsbD digit.value = true ↔ ∃ other, has other = some digit ∧
      (other.row = cell.row ∨ other.column = cell.column ∨ other.block = cell.block) := by
  simp only [Units.used, BitVec.getLsbD_or, Bool.or_eq_true]
  rw [h.rows, h.columns, h.blocks]
  constructor
  · rintro ((⟨other, hu, hd⟩ | ⟨other, hu, hd⟩) | ⟨other, hu, hd⟩)
    · exact ⟨other, hd, .inl hu⟩
    · exact ⟨other, hd, .inr (.inl hu)⟩
    · exact ⟨other, hd, .inr (.inr hu)⟩
  · rintro ⟨other, hd, hu | hu | hu⟩
    · exact .inl (.inl ⟨other, hu, hd⟩)
    · exact .inl (.inr ⟨other, hu, hd⟩)
    · exact .inr ⟨other, hu, hd⟩

/-- At an open cell, the digits of its peers. -/
theorem Loads.used_open (h : Loads search has) (hopen : has cell = none) :
    (search.used cell).getLsbD digit.value = true ↔
      ∃ other, cell.Peer other ∧ has other = some digit := by
  rw [h.used]
  refine exists_congr fun other => ⟨fun ⟨hd, hu⟩ => ⟨⟨?_, hu⟩, hd⟩, fun ⟨hp, hd⟩ => ⟨hd, hp.2⟩⟩
  rintro rfl
  rw [hopen] at hd
  cases hd

theorem Loads.open_iff (h : Loads search has) :
    search.values[cell.index] = 0 ↔ has cell = none := by
  rw [h.values]
  cases hd : has cell with
  | none => simp
  | some digit =>
    have := digit.valid
    simp only [Option.elim_some, reduceCtorEq, iff_false]
    omega

theorem Loads.blank : Loads .blank fun _ => none where
  proper := .empty
  values cell := by simp [Search.blank]
  rows u digit := by simp [Search.blank, Units.unused]
  columns u digit := by simp [Search.blank, Units.unused]
  blocks u digit := by simp [Search.blank, Units.unused]

/-- A digit that no peer has is placed. -/
theorem Loads.place (h : Loads search has) (hopen : has cell = none)
    (hfree : (search.used cell).getLsbD digit.value = false) :
    Loads (search.place cell digit.value) (update has cell (some digit)) where
  proper := by
    refine h.proper.update (fun _ _ => Cell.Peer.symm) (fun _ hp => hp.1 rfl) fun other hp hd => ?_
    have := (h.used_open hopen).2 ⟨other, hp, hd⟩
    rw [hfree] at this
    cases this
  values other := by
    by_cases hc : other = cell
    · subst hc
      simp [Search.place]
    · have hindex : (cell.index : ℕ) ≠ other.index := fun hi =>
        hc (Cell.index_inj (Fin.ext hi.symm))
      rw [update_of_ne hc, ← h.values]
      simp [Search.place, Vector.getElem_set_ne, hindex]
  rows := h.rows.place hopen
  columns := h.columns.place hopen
  blocks := h.blocks.place hopen

theorem or_and_not {bits : BitVec 16} {i : ℕ} (h : bits.getLsbD i = false) :
    (bits ||| BitVec.twoPow 16 i) &&& ~~~BitVec.twoPow 16 i = bits := by
  refine BitVec.eq_of_getLsbD_eq fun j hj => ?_
  rw [BitVec.getLsbD_and, BitVec.getLsbD_or, BitVec.getLsbD_not, BitVec.getLsbD_twoPow]
  by_cases hij : i = j
  · subst hij
    rw [h]
    simp
  · simp [hij, hj]

/-- A digit that is lifted again leaves the state as it was. -/
theorem lift_place (h : Loads search has) (hopen : has cell = none)
    (hfree : (search.used cell).getLsbD digit.value = false) :
    (search.place cell digit.value).lift cell digit.value = search := by
  simp only [Units.used, BitVec.getLsbD_or, Bool.or_eq_false_iff] at hfree
  obtain ⟨⟨hrow, hcolumn⟩, hblock⟩ := hfree
  have hvalue := h.open_iff.2 hopen
  cases search with
  | mk units values =>
    cases units with
    | mk rows columns blocks =>
      simp only [Fin.getElem_fin] at hrow hcolumn hblock hvalue
      simp only [Search.place, Search.lift, Units.place, Units.lift, Fin.getElem_fin,
        Vector.getElem_set_self, Vector.set_set, or_and_not hrow, or_and_not hcolumn,
        or_and_not hblock, Vector.set_getElem_self]
      refine congrArg (Search.mk _) ?_
      conv_lhs => rw [← hvalue]
      exact Vector.set_getElem_self ..

/-! ## The most constrained cell -/

theorem countOnes_eq_zero {bits : BitVec 16} (h : Search.countOnes bits = 0) : bits = 0 := by
  refine BitVec.eq_of_getLsbD_eq fun i hi => ?_
  have := List.countP_eq_zero.1 h i (List.mem_range.2 hi)
  simpa using this

/-- The cell is open, and these are its candidates. -/
def Search.Offers (search : Search) (cell : Cell) (bits : BitVec 16) : Prop :=
  search.values[cell.index] = 0 ∧ bits = search.candidates cell

theorem mostConstrainedFrom_offers {cells : List Cell} {best : Option (Cell × BitVec 16 × ℕ)}
    (hbest : ∀ held ∈ best, search.Offers held.1 held.2.1) {bits : BitVec 16}
    (h : search.mostConstrainedFrom cells best = some (cell, bits)) : search.Offers cell bits := by
  have hend {best : Option (Cell × BitVec 16 × ℕ)}
      (hbest : ∀ held ∈ best, search.Offers held.1 held.2.1)
      (h : (best.map fun (cell, candidates, _) => (cell, candidates)) = some (cell, bits)) :
      search.Offers cell bits := by
    obtain ⟨held, hheld, heq⟩ := Option.map_eq_some_iff.1 h
    cases heq
    exact hbest held hheld
  induction cells generalizing best with
  | nil => exact hend hbest h
  | cons next rest ih =>
    unfold Search.mostConstrainedFrom at h
    split at h
    · exact ih hbest h
    · next hopen =>
      have hopen := not_not.1 hopen
      dsimp only at h
      split at h
      · next hzero =>
        cases h
        exact ⟨hopen, (countOnes_eq_zero hzero).symm⟩
      · have hnext : ∀ held ∈ (match best with
            | none => some (next, search.candidates next,
                Search.countOnes (search.candidates next))
            | some (held, bits, fewest) =>
              if Search.countOnes (search.candidates next) < fewest then
                some (next, search.candidates next, Search.countOnes (search.candidates next))
              else some (held, bits, fewest)), search.Offers held.1 held.2.1 := by
          intro held hheld
          rcases best with _ | ⟨old, bits, fewest⟩
          · cases hheld
            exact ⟨hopen, rfl⟩
          · dsimp only at hheld
            split at hheld
            · cases hheld
              exact ⟨hopen, rfl⟩
            · exact hbest held hheld
        split at h
        · exact hend hnext h
        · exact ih hnext h

theorem mostConstrainedFrom_none {cells : List Cell} {best : Option (Cell × BitVec 16 × ℕ)}
    (h : search.mostConstrainedFrom cells best = none) :
    best = none ∧ ∀ cell ∈ cells, search.values[cell.index] ≠ 0 := by
  induction cells generalizing best with
  | nil => exact ⟨Option.map_eq_none_iff.1 h, by simp⟩
  | cons next rest ih =>
    unfold Search.mostConstrainedFrom at h
    split at h
    · next hheld =>
      obtain ⟨hbest, hrest⟩ := ih h
      exact ⟨hbest, List.forall_mem_cons.2 ⟨hheld, hrest⟩⟩
    · dsimp only at h
      split at h
      · cases h
      · exfalso
        split at h
        · have := Option.map_eq_none_iff.1 h
          split at this
          · cases this
          · split at this <;> cases this
        · have := (ih h).1
          split at this
          · cases this
          · split at this <;> cases this

/-- Where nothing is open, everything holds a digit. -/
theorem Loads.full (h : Loads search has) (hnone : search.mostConstrained = none) :
    ∃ f : Cell → Digit, has = fun cell => some (f cell) := by
  have hheld (cell : Cell) : (has cell).isSome = true := by
    have hvalue := (mostConstrainedFrom_none hnone).2 cell cell.mem_all
    rw [← Option.ne_none_iff_isSome]
    exact fun hopen => hvalue (h.open_iff.2 hopen)
  exact ⟨fun cell => (has cell).get (hheld cell), funext fun cell => by simp⟩

/-- The candidates of an open cell are the digits that no peer has. -/
theorem Loads.offers (h : Loads search has) {bits : BitVec 16}
    (hoffers : search.mostConstrained = some (cell, bits)) :
    has cell = none ∧ ∀ digit : Digit, bits &&& digit.mask ≠ 0 ↔
      (search.used cell).getLsbD digit.value = false := by
  have hnone : ∀ held ∈ (none : Option (Cell × BitVec 16 × ℕ)), search.Offers held.1 held.2.1 := by
    simp
  obtain ⟨hopen, rfl⟩ := mostConstrainedFrom_offers hnone hoffers
  refine ⟨h.open_iff.1 hopen, fun digit => ?_⟩
  have := digit.valid
  rw [Digit.and_mask_ne_zero, Search.candidates, BitVec.getLsbD_and, getLsbD_ALL_DIGITS,
    BitVec.getLsbD_not, Bool.true_and]
  simp
  omega

/-- A digit that is not a candidate leads nowhere. -/
theorem Loads.no_extension (h : Loads search has) (hopen : has cell = none)
    (hused : (search.used cell).getLsbD digit.value = true) :
    extensions Cell.Peer (update has cell (some digit)) = ∅ := by
  obtain ⟨other, hp, hd⟩ := (h.used_open hopen).1 hused
  exact extensions_blocked hopen hp hd

/-! ## Levels -/

/-- The cells that hold nothing. -/
def opens (has : Cell → Option Digit) : Finset Cell := Finset.univ.filter fun cell => has cell = none

theorem opens_update (hopen : has cell = none) :
    (opens (update has cell (some digit))).card < (opens has).card := by
  refine Finset.card_lt_card (Finset.ssubset_iff_of_subset ?_ |>.2 ⟨cell, ?_, ?_⟩)
  · intro other hother
    simp only [opens, Finset.mem_filter, Finset.mem_univ, true_and] at hother ⊢
    by_cases hc : other = cell
    · subst hc
      exact hopen
    · rwa [update_of_ne hc] at hother
  · simpa [opens] using hopen
  · simp [opens]

theorem opens_card_lt (has : Cell → Option Digit) : (opens has).card < LEVELS :=
  Nat.lt_succ_of_le (Finset.card_le_univ (opens has))

/-! ## Counting -/

/-- The number of complete legal grids that have what is placed. -/
noncomputable def completions (has : Cell → Option Digit) : ℕ := (extensions Cell.Peer has).ncard

/-- The digits of one cell are counted one after the other, up to the limit. -/
theorem countEach_eq {limit : ℕ} {count : Search → ℕ → Option (Search × ℕ)} {bits : BitVec 16}
    {size : Digit → ℕ} (hskip : ∀ digit : Digit, bits &&& digit.mask = 0 → size digit = 0)
    (htry : ∀ digit : Digit, bits &&& digit.mask ≠ 0 → ∀ found ≤ limit,
      count (search.place cell digit.value) found =
        some (search.place cell digit.value, min limit (found + size digit)))
    (hlift : ∀ digit : Digit, bits &&& digit.mask ≠ 0 →
      (search.place cell digit.value).lift cell digit.value = search)
    (digits : List Digit) {found : ℕ} (hfound : found ≤ limit) :
    Search.countEach limit count cell bits digits search found =
      some (search, min limit (found + (digits.map size).sum)) := by
  induction digits generalizing found with
  | nil => simp [Search.countEach, hfound]
  | cons digit rest ih =>
    rw [Search.countEach, List.map_cons, List.sum_cons]
    split
    · next hzero => rw [ih hfound, hskip digit hzero, Nat.zero_add]
    · next hcandidate =>
      rw [htry digit hcandidate found hfound]
      dsimp only
      rw [hlift digit hcandidate]
      split
      · next hlimit =>
        refine congrArg some (Prod.ext rfl ?_)
        show min limit (found + size digit) = _
        omega
      · rw [ih (min_le_left ..)]
        refine congrArg some (Prod.ext rfl ?_)
        show min limit (min limit (found + size digit) + _) = _
        omega

/-- Counting finds every completion, up to the limit, and leaves the state as it was. -/
theorem count_eq {limit fuel found : ℕ} (h : Loads search has) (hfuel : (opens has).card < fuel)
    (hfound : found ≤ limit) :
    search.count limit fuel found = some (search, min limit (found + completions has)) := by
  induction fuel generalizing search has found with
  | zero => cases hfuel
  | succ fuel ih =>
    rw [Search.count]
    split
    · next hlimit =>
      refine congrArg some (Prod.ext rfl ?_)
      show found = min limit (found + completions has)
      omega
    · next hlimit =>
      split
      · next hnone =>
        obtain ⟨f, rfl⟩ := h.full hnone
        rw [completions, extensions_full (fun _ => rfl) h.proper, Set.ncard_singleton]
        refine congrArg some (Prod.ext rfl ?_)
        show found + 1 = min limit (found + 1)
        omega
      · next cell bits hoffers =>
        obtain ⟨hopen, hcandidates⟩ := h.offers hoffers
        rw [completions, ncard_extensions hopen Digit.mem_all Digit.nodup_all]
        refine countEach_eq (fun digit hzero => ?_) (fun digit hcandidate found hfound => ?_)
          (fun digit hcandidate => lift_place h hopen ((hcandidates digit).1 hcandidate))
          Digit.ALL hfound
        · have hused : (search.used cell).getLsbD digit.value = true := by
            rw [← Bool.not_eq_false]
            exact fun hfree => (hcandidates digit).2 hfree hzero
          rw [h.no_extension hopen hused, Set.ncard_empty]
        · exact ih (h.place hopen ((hcandidates digit).1 hcandidate))
            (Nat.lt_of_lt_of_le (opens_update hopen) (Nat.lt_succ_iff.1 hfuel)) hfound

/-! ## Filling -/

/-- What filling leaves: a completion, or the state as it was where there is none. -/
def Filled (search : Search) (has : Cell → Option Digit) : Bool → Search → Prop
  | true, search' => ∃ f ∈ extensions Cell.Peer has, Loads search' fun cell => some (f cell)
  | false, search' => extensions Cell.Peer has = ∅ ∧ search' = search

variable {σ : Type} {next : σ → BitVec 64 × σ}

/-- The digits of one cell are tried one after the other. -/
theorem fillEach_filled {fill : Search → Option σ → Option (Bool × Search × Option σ)}
    (h : Loads search has) (hopen : has cell = none) {digits : List Digit}
    (hfree : ∀ digit ∈ digits, (search.used cell).getLsbD digit.value = false)
    (htry : ∀ digit ∈ digits, ∀ rng, ∃ ok search' rng',
      fill (search.place cell digit.value) rng = some (ok, search', rng') ∧
        rng'.isSome = rng.isSome ∧
        Filled (search.place cell digit.value) (update has cell (some digit)) ok search')
    (rng : Option σ) :
    ∃ ok search' rng', Search.fillEach fill cell digits search rng = some (ok, search', rng') ∧
      rng'.isSome = rng.isSome ∧
      match ok with
      | true => ∃ f ∈ extensions Cell.Peer has, Loads search' fun cell => some (f cell)
      | false => (∀ digit ∈ digits, extensions Cell.Peer (update has cell (some digit)) = ∅) ∧
        search' = search := by
  induction digits generalizing rng with
  | nil => exact ⟨false, search, rng, rfl, rfl, by simp, rfl⟩
  | cons digit rest ih =>
    obtain ⟨ok, search', rng', heq, hsome, hfilled⟩ := htry digit List.mem_cons_self rng
    rw [Search.fillEach, heq]
    cases ok with
    | true =>
      obtain ⟨f, hf, hloads⟩ := hfilled
      exact ⟨true, search', rng', rfl, hsome, f, ((mem_extensions_update hopen).1 hf).1, hloads⟩
    | false =>
      obtain ⟨hempty, rfl⟩ := hfilled
      dsimp only
      rw [lift_place h hopen (hfree digit List.mem_cons_self)]
      obtain ⟨ok, search', rng'', heq', hsome', hrest⟩ := ih
        (fun d hd => hfree d (List.mem_cons_of_mem _ hd))
        (fun d hd => htry d (List.mem_cons_of_mem _ hd)) rng'
      refine ⟨ok, search', rng'', heq', hsome'.trans hsome, ?_⟩
      cases ok with
      | true => exact hrest
      | false => exact ⟨List.forall_mem_cons.2 ⟨hempty, hrest.1⟩, hrest.2⟩

/-- Filling finds a completion if there is one, whatever the stream is. -/
theorem fill_filled (next : σ → BitVec 64 × σ) {fuel : ℕ} (h : Loads search has) (hfuel : (opens has).card < fuel)
    (rng : Option σ) : ∃ ok search' rng', search.fill next fuel rng = some (ok, search', rng') ∧
      rng'.isSome = rng.isSome ∧ Filled search has ok search' := by
  induction fuel generalizing search has rng with
  | zero => cases hfuel
  | succ fuel ih =>
    rw [Search.fill]
    split
    · next hnone =>
      obtain ⟨f, rfl⟩ := h.full hnone
      refine ⟨true, search, rng, rfl, rfl, f, ?_, h⟩
      rw [extensions_full (fun _ => rfl) h.proper]
      rfl
    · next cell bits hoffers =>
      obtain ⟨hopen, hcandidates⟩ := h.offers hoffers
      have heach (digits : List Digit) (rng : Option σ)
          (hperm : digits.Perm (Digit.ALL.filter fun digit => bits &&& digit.mask ≠ 0)) :
          ∃ ok search' rng', Search.fillEach (Search.fill next fuel) cell digits search rng =
            some (ok, search', rng') ∧ rng'.isSome = rng.isSome ∧ Filled search has ok search' := by
        have hmem (digit : Digit) : digit ∈ digits ↔
            (search.used cell).getLsbD digit.value = false := by
          rw [hperm.mem_iff, List.mem_filter, decide_eq_true_eq, hcandidates]
          exact and_iff_right digit.mem_all
        obtain ⟨ok, search', rng', heq, hsome, hfilled⟩ := fillEach_filled h hopen
          (fun digit hd => (hmem digit).1 hd) (fun digit hd rng =>
            ih (h.place hopen ((hmem digit).1 hd))
              (Nat.lt_of_lt_of_le (opens_update hopen) (Nat.lt_succ_iff.1 hfuel)) rng) rng
        refine ⟨ok, search', rng', heq, hsome, ?_⟩
        cases ok with
        | true => exact hfilled
        | false =>
          refine ⟨Set.eq_empty_of_forall_notMem fun f hf => ?_, hfilled.2⟩
          have hupdate : extensions Cell.Peer (update has cell (some (f cell))) = ∅ := by
            cases hused : (search.used cell).getLsbD (f cell).value with
            | true => exact h.no_extension hopen hused
            | false => exact hfilled.1 _ ((hmem _).2 hused)
          exact (hupdate ▸ (mem_extensions_update hopen).2 ⟨hf, rfl⟩ : f ∈ (∅ : Set _))
      cases rng with
      | none => exact heach _ none (.refl _)
      | some stream => exact heach _ _ (shuffle_perm _ _)

/-! ## Grids -/

/-- What the cells of a grid hold, less those that are still to come. -/
def without (grid : Grid) (cells : List Cell) (cell : Cell) : Option Digit :=
  if cell ∈ cells then none else grid.get cell

theorem without_nil (grid : Grid) : without grid [] = grid.get := by
  funext cell
  simp [without]

theorem without_all (grid : Grid) : without grid Cell.all = fun _ => none := by
  funext cell
  simp [without, cell.mem_all]

theorem without_cons_none {grid : Grid} {rest : List Cell} (h : grid.get cell = none) :
    without grid (cell :: rest) = without grid rest := by
  funext other
  by_cases hc : other = cell
  · subst hc
    simp [without, h]
  · simp [without, hc]

theorem without_cons_some {grid : Grid} {rest : List Cell} (hcell : cell ∉ rest) :
    without grid rest = update (without grid (cell :: rest)) cell (grid.get cell) := by
  funext other
  by_cases hc : other = cell
  · subst hc
    simp [without, hcell]
  · simp [without, hc]

/-- The cells of a grid are loaded as long as they break no constraint. -/
theorem loadFrom_loads {grid : Grid} {cells : List Cell} (hnodup : cells.Nodup)
    (h : Loads search (without grid cells)) :
    match Search.loadFrom grid cells search with
    | some search' => Loads search' grid.get
    | none => ¬ grid.Legal := by
  induction cells generalizing search with
  | nil =>
    rw [without_nil] at h
    exact h
  | cons cell rest ih =>
    obtain ⟨hcell, hrest⟩ := List.nodup_cons.1 hnodup
    unfold Search.loadFrom
    have hopen : without grid (cell :: rest) cell = none := by simp [without]
    cases hd : grid.get cell with
    | none => exact ih hrest (without_cons_none hd ▸ h)
    | some digit =>
      dsimp only
      cases hused : (search.used cell).getLsbD digit.value with
      | true =>
        rw [if_pos (Digit.and_mask_ne_zero.2 hused)]
        obtain ⟨other, hp, hother⟩ := (h.used_open hopen).1 hused
        intro hlegal
        refine hlegal cell other digit hp hd ?_
        unfold without at hother
        split at hother
        · cases hother
        · exact hother
      | false =>
        rw [if_neg fun hne => Bool.false_ne_true (hused.symm.trans (Digit.and_mask_ne_zero.1 hne))]
        refine ih hrest ?_
        rw [without_cons_some hcell, hd]
        exact h.place hopen hused

theorem load_loads (grid : Grid) :
    match Search.load grid with
    | some search => Loads search grid.get
    | none => ¬ grid.Legal :=
  loadFrom_loads Cell.nodup_all (without_all grid ▸ .blank)

theorem validFrom_eq (grid : Grid) (cells : List Cell) (search : Search) :
    grid.validFrom cells search.toUnits = (Search.loadFrom grid cells search).isSome := by
  induction cells generalizing search with
  | nil => rfl
  | cons cell rest ih =>
    unfold Grid.validFrom Search.loadFrom
    cases grid.get cell with
    | none => exact ih search
    | some digit =>
      have hused : search.used cell &&& digit.mask ≠ 0 ↔
          (search.rows[cell.row] &&& digit.mask ≠ 0 ∨ search.columns[cell.column] &&& digit.mask ≠ 0) ∨
            search.blocks[cell.block] &&& digit.mask ≠ 0 := by
        simp only [Digit.and_mask_ne_zero, Units.used, BitVec.getLsbD_or, Bool.or_eq_true]
      dsimp only
      split
      · next hrow => rw [if_pos (hused.2 (.inl (.inl hrow)))]; rfl
      · next hrow =>
        split
        · next hcolumn => rw [if_pos (hused.2 (.inl (.inr hcolumn)))]; rfl
        · next hcolumn =>
          split
          · next hblock => rw [if_pos (hused.2 (.inr hblock))]; rfl
          · next hblock =>
            rw [if_neg fun hne => (hused.1 hne).elim (Or.elim · hrow hcolumn) hblock]
            exact ih (search.place cell digit.value)

/-- The check is that no row, column or block holds a digit twice. -/
theorem isValid_iff {grid : Grid} : grid.isValid = true ↔ grid.Legal := by
  have heq : grid.isValid = (Search.load grid).isSome := validFrom_eq grid Cell.all .blank
  have hloads := load_loads grid
  rw [heq]
  cases hload : Search.load grid with
  | none =>
    rw [hload] at hloads
    exact iff_of_false Bool.false_ne_true hloads
  | some search =>
    rw [hload] at hloads
    exact iff_of_true rfl hloads.proper

theorem isSolved_iff {grid : Grid} : grid.isSolved = true ↔
    (∀ cell, (grid.get cell).isSome = true) ∧ grid.Legal := by
  rw [Grid.isSolved, Bool.and_eq_true, Grid.isComplete_iff, isValid_iff]

/-- As many solutions are counted as there are, up to the limit. -/
theorem solutions_eq (grid : Grid) (limit : ℕ) :
    solutions grid limit = some (min limit (completions grid.get)) := by
  have hloads := load_loads grid
  unfold solutions
  cases hload : Search.load grid with
  | none =>
    rw [hload] at hloads
    have hempty : extensions Cell.Peer grid.get = ∅ :=
      Set.eq_empty_of_forall_notMem fun f ⟨hf, hg⟩ => hloads fun a b digit hp ha hb =>
        hf a b hp ((hg a digit ha).trans (hg b digit hb).symm)
    simp [completions, hempty]
  | some search =>
    rw [hload] at hloads
    dsimp only
    rw [count_eq hloads (opens_card_lt _) (Nat.zero_le limit)]
    simp

theorem get_gridFrom (search : Search) {cells : List Cell} (hnodup : cells.Nodup) (grid : Grid)
    (cell : Cell) : (search.gridFrom cells grid).get cell =
      if cell ∈ cells then Digit.new search.values[cell.index] else grid.get cell := by
  induction cells generalizing grid with
  | nil => rfl
  | cons head rest ih =>
    obtain ⟨hhead, hrest⟩ := List.nodup_cons.1 hnodup
    rw [Search.gridFrom, ih hrest]
    by_cases hc : cell = head
    · subst hc
      simp [hhead]
    · simp [hc, Grid.get_set_ne]

/-- The grid of a search holds what has been placed. -/
theorem Loads.get_grid (h : Loads search has) : search.grid.get = has := by
  funext cell
  rw [Search.grid, get_gridFrom search Cell.nodup_all, if_pos cell.mem_all, h.values]
  cases has cell with
  | none => rfl
  | some digit => exact Digit.new_value digit

/-- A finished, legal grid completes whatever it agrees with. -/
theorem solved_extends {grid : Grid} (h : grid.isSolved = true) : ∃ f : Cell → Digit,
    (∀ cell, grid.get cell = some (f cell)) ∧ ∀ has : Cell → Option Digit,
      (∀ cell digit, has cell = some digit → grid.get cell = some digit) →
        f ∈ extensions Cell.Peer has := by
  obtain ⟨hfull, hlegal⟩ := isSolved_iff.1 h
  have hget (cell : Cell) : grid.get cell = some ((grid.get cell).get (hfull cell)) := by simp
  refine ⟨fun cell => (grid.get cell).get (hfull cell), hget, fun has hagree => ⟨?_, ?_⟩⟩
  · intro a b hp heq
    exact hlegal a b _ hp (hget a) ((hget b).trans (congrArg some heq.symm))
  · intro cell digit hd
    exact Option.some.inj ((hget cell).symm.trans (hagree cell digit hd))

/-- A grid that is finished and legal. -/
def SOLUTION : Grid := ⟨#v[
  5, 3, 4, 6, 7, 8, 9, 1, 2, 6, 7, 2, 1, 9, 5, 3, 4, 8, 1, 9, 8, 3, 4, 2, 5, 6, 7,
  8, 5, 9, 7, 6, 1, 4, 2, 3, 4, 2, 6, 8, 5, 3, 7, 9, 1, 7, 1, 3, 9, 2, 4, 8, 5, 6,
  9, 6, 1, 5, 3, 7, 2, 8, 4, 2, 8, 7, 4, 1, 9, 6, 3, 5, 3, 4, 5, 2, 8, 6, 1, 7, 9].map Digit.new⟩

/-- The empty grid has a completion. -/
theorem extensions_empty_nonempty :
    (extensions Cell.Peer fun _ => (none : Option Digit)).Nonempty := by
  have hsolved : SOLUTION.isSolved = true := by decide +kernel
  obtain ⟨f, -, hf⟩ := solved_extends hsolved
  exact ⟨f, hf _ fun _ _ h => by cases h⟩

/-- Whatever the stream is, a complete grid is drawn from it, and it is legal. -/
theorem complete_solved (next : σ → BitVec 64 × σ) (rng : σ) :
    ∃ grid rng', complete next rng = some (grid, rng') ∧ grid.isSolved = true := by
  have hloads : Loads .blank Grid.EMPTY.get := by
    rw [show Grid.EMPTY.get = fun _ => none from funext Grid.get_empty]
    exact .blank
  have hload : ∃ search, Search.load .EMPTY = some search ∧ Loads search Grid.EMPTY.get := by
    have := load_loads .EMPTY
    cases hload : Search.load .EMPTY with
    | none =>
      rw [hload] at this
      exact absurd hloads.proper this
    | some search =>
      rw [hload] at this
      exact ⟨search, rfl, this⟩
  obtain ⟨search, hload, hloads⟩ := hload
  obtain ⟨ok, search', rng', hfill, hsome, hfilled⟩ :=
    fill_filled _ hloads (opens_card_lt _) (some rng)
  obtain ⟨rng', rfl⟩ := Option.isSome_iff_exists.1 hsome
  have hempty : Grid.EMPTY.get = fun _ => none := funext Grid.get_empty
  rw [hempty] at hfilled
  cases ok with
  | false => exact absurd hfilled.1 extensions_empty_nonempty.ne_empty
  | true =>
    obtain ⟨f, hf, hloads'⟩ := hfilled
    refine ⟨search'.grid, rng', ?_, ?_⟩
    · show (Search.load .EMPTY).bind _ = _
      rw [hload, Option.bind_some, hfill]
    · rw [isSolved_iff, Grid.Legal, hloads'.get_grid]
      exact ⟨fun _ => rfl, hloads'.proper⟩

end

end Paperclip.Sudoku
