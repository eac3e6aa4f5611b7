import Mathlib.Data.Fintype.Card

/-! The table of the Tunstall coder: `ts_build_lut` takes the entry it thinks most
probable out of the table, and puts its extensions by one symbol in. -/
namespace UnifiedCache.Compress.Tunstall
open List Function

/-- `TS_LUT_SIZE` -/
def lutEntries : Nat := 256

/-- `TS_ITEM_SIZE` -/
def itemSize : Nat := 7

/-- `TS_ENC_STATE_TABLE_SIZE` -/
def encStates : Nat := lutEntries * 2

inductive Error where
  | lutBuild | lutCheck
  deriving DecidableEq

/-- The arithmetic of `double`, of which nothing is assumed. -/
structure Arith (P : Type) where
  zero : P
  one : P
  /-- `TS_V2_THRESH / TS_LUT_SIZE` -/
  thresh : P
  mul : P → P → P
  sub : P → P → P
  lt : P → P → Bool

/-- A symbol below `TS_N_SYMB`. -/
abbrev Symb := Fin 64

structure HistItem (P : Type) where
  symb : Symb
  prob : P

structure Hist (P : Type) where
  items : List (HistItem P)
  distinct : (items.map HistItem.symb).Nodup

abbrev LutItem := List Symb

def addSymbToItem (item : LutItem) (symb : Symb) : LutItem := item ++ [symb]

/-- The tables under construction; `nextState` and `stateMark` are the encoder's. -/
structure Tables (P : Type) where
  lut : Nat → LutItem := fun _ => []
  lutProb : Nat → P
  blackList : Nat → Bool := fun _ => false
  lutSize : Nat := 1
  nextState : Nat → Symb → Nat := fun _ _ => 0
  stateMark : Nat → Nat := fun _ => 0
  newState : Nat := 0

variable {P : Type} (arith : Arith P)

/-- The first of the most probable entries that can be extended. -/
def searchLargestItem (tables : Tables P) : Option Nat :=
  ((range tables.lutSize).foldl (fun best mark =>
    if tables.blackList mark = false ∧ (tables.lut mark).length < itemSize ∧
      arith.lt best.2 (tables.lutProb mark) then (some mark, tables.lutProb mark)
    else best) ((none : Option Nat), arith.zero)).1

def gotoStateByLutItem (tables : Tables P) (item : LutItem) : Nat :=
  item.foldl tables.nextState 0

/-- The loop that looks for an empty entry. -/
def skipUsed (lut : Nat → LutItem) (mark : Nat) : Except Error Nat :=
  if lut mark = [] then .ok mark
  else if lutEntries ≤ mark + 1 then .error .lutBuild
  else skipUsed lut (mark + 1)
  termination_by lutEntries - mark

namespace Tables

/-- An entry for the item with one more symbol, and the state behind it. -/
def extend (tables : Tables P) (item : LutItem) (state mark : Nat) (symb : Symb) : Tables P :=
  { tables with
    lut := update tables.lut mark (addSymbToItem item symb)
    newState := tables.newState + 1
    nextState := update tables.nextState state
      (update (tables.nextState state) symb (tables.newState + 1))
    stateMark := update tables.stateMark (tables.newState + 1) mark }

/-- The item itself goes back into the table. -/
def putBack (tables : Tables P) (item : LutItem) (state mark : Nat) : Tables P :=
  { tables with
    lut := update tables.lut mark item
    stateMark := update tables.stateMark state mark }

end Tables

/-- The loop over the symbols; it ends with the mark of the last entry. -/
def expand (nSymb : Nat) (item : LutItem) (prob : P) (state : Nat) :
    Nat → List (HistItem P) → Nat → P → Tables P → Except Error (Tables P × Nat)
  | _, [], mark, _, tables => .ok (tables, mark)
  | idx, hist :: rest, mark, rem, tables =>
    match skipUsed tables.lut mark with
    | .error error => .error error
    | .ok mark =>
      if mark < lutEntries - 1 then
        -- an item that is not the root may stop early
        if item ≠ [] ∧ 0 < idx ∧ idx < nSymb - 1 ∧ arith.lt (arith.mul prob rem) arith.thresh then
          .ok ({ tables.putBack item state mark with
            blackList := update tables.blackList mark true }, mark)
        else
          expand nSymb item prob state (idx + 1) rest mark (arith.sub rem hist.prob)
            { tables.extend item state mark hist.symb with
              lutProb := update tables.lutProb mark (arith.mul prob hist.prob) }
      else if nSymb - 1 ≤ idx then .ok (tables.extend item state mark hist.symb, mark)
      else .ok (tables.putBack item state mark, mark)

/-- One round of the outer loop. -/
def expandItem (hist : Hist P) (mark : Nat) (tables : Tables P) : Except Error (Tables P) :=
  let item := tables.lut mark
  (expand arith hist.items.length item (tables.lutProb mark) (gotoStateByLutItem tables item)
    0 hist.items mark arith.one { tables with lut := update tables.lut mark [] }).map
    fun (tables, mark) => { tables with lutSize := mark + 1 }

/-- The outer loop; `none` says that it does not end within the fuel. -/
def buildLoop (hist : Hist P) : Nat → Tables P → Option (Except Error (Tables P))
  | 0, _ => none
  | fuel + 1, tables =>
    match searchLargestItem arith tables with
    | none => some (.ok tables)
    | some mark =>
      match expandItem arith hist mark tables with
      | .error error => some (.error error)
      | .ok tables =>
        if tables.lutSize < lutEntries then buildLoop hist fuel tables else some (.ok tables)

def buildLut (hist : Hist P) (fuel : Nat) : Option (Except Error (Tables P)) :=
  buildLoop arith hist fuel
    { lutProb := fun mark => if mark = 0 then arith.one else arith.zero }

/-- The second loop of `ts_check_lut`. -/
def checkEmpty : List LutItem → Except Error Unit
  | [] => .ok ()
  | item :: rest => if item ≠ [] then .error .lutCheck else checkEmpty rest

def checkItems : List LutItem → Except Error Unit
  | [] => .ok ()
  | item :: rest =>
    if itemSize < item.length then .error .lutCheck
    else if item = [] then checkEmpty (item :: rest)
    else checkItems rest

def checkLut (lut : Nat → LutItem) : Except Error Unit := checkItems ((range lutEntries).map lut)

def Filled (lut : Nat → LutItem) (size : Nat) : Prop :=
  (∀ mark < size, lut mark ≠ []) ∧ ∀ mark, size ≤ mark → lut mark = []

variable {arith} {lut : Nat → LutItem} {tables next : Tables P} {hist : Hist P}
variable {mark size : Nat} {item : LutItem}

theorem Filled.snoc (h : Filled lut size) (hi : item ≠ []) :
    Filled (update lut size item) (size + 1) := by
  constructor
  · intro mark hm
    rcases Nat.lt_succ_iff_lt_or_eq.1 hm with hl | rfl
    · rw [update_of_ne hl.ne]
      exact h.1 mark hl
    · rwa [update_self]
  · intro mark hm
    rw [update_of_ne (by omega)]
    exact h.2 mark (by omega)

theorem skipUsed_of_filled (h : Filled lut size) (hm : mark ≤ size) (hs : size < lutEntries) :
    skipUsed lut mark = .ok size := by
  induction hd : size - mark generalizing mark with
  | zero =>
    obtain rfl : mark = size := by omega
    rw [skipUsed, if_pos (h.2 mark le_rfl)]
  | succ _ ih =>
    rw [skipUsed, if_neg (h.1 mark (by omega)), if_neg (by omega)]
    exact ih (by omega) (by omega)

theorem search_spec (h : searchLargestItem arith tables = some mark) :
    mark < tables.lutSize ∧ (tables.lut mark).length < itemSize := by
  let Fits (best : Option Nat × P) : Prop := ∀ mark, best.1 = some mark →
    mark < tables.lutSize ∧ (tables.lut mark).length < itemSize
  suffices hf : Fits (foldl _ (none, arith.zero) (range tables.lutSize)) from hf mark h
  refine foldlRecOn _ _ nofun fun best hb mark hm => ?_
  split <;> rename_i hc
  · rintro _ ⟨⟩
    exact ⟨mem_range.1 hm, hc.2.1⟩
  · exact hb

/-- What holds of the tables between two symbols, when `size` entries are used. -/
structure Sound (tables : Tables P) (size : Nat) : Prop where
  filled : Filled tables.lut size
  short : ∀ mark, (tables.lut mark).length ≤ itemSize
  known : ∀ state symb, tables.nextState state symb ≤ tables.newState

theorem short_update (h : ∀ mark, (lut mark).length ≤ itemSize) (hl : item.length ≤ itemSize)
    (mark other : Nat) : (update lut mark item other).length ≤ itemSize := by
  rcases eq_or_ne other mark with rfl | hne
  · rwa [update_self]
  · rw [update_of_ne hne]
    exact h other

theorem known_extend (h : ∀ state symb, tables.nextState state symb ≤ tables.newState)
    (item : LutItem) (state mark : Nat) (symb : Symb) (other : Nat) (read : Symb) :
    (tables.extend item state mark symb).nextState other read ≤ tables.newState + 1 := by
  have hk := fun state symb => Nat.le_succ_of_le (h state symb)
  unfold Tables.extend
  dsimp only
  rcases eq_or_ne other state with rfl | hne
  · rw [update_self]
    rcases eq_or_ne read symb with rfl | hn
    · rw [update_self]
    · rw [update_of_ne hn]
      exact hk _ _
  · rw [update_of_ne hne]
    exact hk _ _

theorem Sound.extend (h : Sound tables size) (hl : item.length < itemSize) (state : Nat)
    (symb : Symb) : Sound (tables.extend item state size symb) (size + 1) where
  filled := h.filled.snoc (by simp [addSymbToItem])
  short := short_update h.short (by simpa [addSymbToItem] using Nat.succ_le_of_lt hl) size
  known := known_extend h.known item state size symb

theorem Sound.putBack (h : Sound tables size) (hl : item.length < itemSize) (hi : item ≠ [])
    (state : Nat) : Sound (tables.putBack item state size) (size + 1) where
  filled := h.filled.snoc hi
  short := short_update h.short hl.le size
  known := h.known

/-- From the second symbol on, every state comes with an entry of its own. -/
theorem expand_spec (arith : Arith P) (n state : Nat) (prob : P) (hl : item.length < itemSize)
    {items : List (HistItem P)} (idx : Nat) (rem : P) (h : Sound tables size) (hm : mark < size)
    (hn : items = [] → mark + 1 = size) (hs : size < lutEntries)
    (hr : item = [] → size + items.length < lutEntries) : ∃ next last,
    expand arith n item prob state idx items mark rem tables = .ok (next, last) ∧
    Sound next (last + 1) ∧ last < lutEntries ∧ size + (if items = [] then 0 else 1) ≤ last + 1 ∧
    next.newState + size ≤ tables.newState + (last + 1) := by
  induction items generalizing idx mark size rem tables with
  | nil =>
    obtain rfl := hn rfl
    exact ⟨tables, mark, rfl, h, by omega, by simp, le_rfl⟩
  | cons first rest ih =>
    rw [expand, skipUsed_of_filled h.filled hm.le hs]
    dsimp only
    rw [if_neg (cons_ne_nil _ _)]
    split
    · split <;> rename_i hlt hc
      · have hp := h.putBack hl hc.1 state
        exact ⟨_, size, rfl, { hp with }, hs, le_rfl, Nat.add_le_add_left (Nat.le_succ size) _⟩
      -- the recursive call sees one more entry and one more state
      have he : Sound { tables.extend item state size first.symb with
          lutProb := update tables.lutProb size (arith.mul prob first.prob) } (size + 1) :=
        { h.extend hl state first.symb with }
      obtain ⟨next, last, heq, hso, hla, hg, hst⟩ := ih (idx + 1) (arith.sub rem first.prob) he
        (Nat.lt_succ_self size) (fun _ => rfl) (by omega) fun hi => by
          have := hr hi
          simp only [length_cons] at this
          omega
      refine ⟨next, last, heq, hso, hla, by omega, ?_⟩
      change _ ≤ tables.newState + 1 + _ at hst
      omega
    split
    · have he := h.extend hl state first.symb
      refine ⟨_, size, rfl, he, hs, le_rfl, ?_⟩
      change tables.newState + 1 + size ≤ _
      omega
    · have hi : item ≠ [] := by
        intro hi
        have := hr hi
        simp only [length_cons] at this
        omega
      exact ⟨_, size, rfl, h.putBack hl hi state, hs, le_rfl, Nat.add_le_add_left (Nat.le_succ size) _⟩

/-- The tables at the head of the outer loop, for `n` symbols. -/
structure Good (n : Nat) (tables : Tables P) : Prop where
  pos : 0 < tables.lutSize
  le : tables.lutSize ≤ lutEntries
  used : ∀ mark < tables.lutSize, tables.lut mark ≠ [] ∨ tables.lutSize = 1
  empty : ∀ mark, tables.lutSize ≤ mark → tables.lut mark = []
  short : ∀ mark, (tables.lut mark).length ≤ itemSize
  known : ∀ state symb, tables.nextState state symb ≤ tables.newState
  single : n = 1 → tables.lutSize = 1 ∧ tables.newState ≤ (tables.lut 0).length
  several : n ≠ 1 → tables.newState ≤ 2 * (tables.lutSize - 1)

/-- Every round of the outer loop lowers it. -/
def rank (n : Nat) (tables : Tables P) : Nat :=
  if n = 1 then itemSize - (tables.lut 0).length else lutEntries - tables.lutSize

/-- The tables after the first symbol, whose entry takes the place of the item's. -/
def firstChild (arith : Arith P) (mark : Nat) (first : HistItem P) (tables : Tables P) : Tables P :=
  { Tables.extend { tables with lut := update tables.lut mark [] } (tables.lut mark)
      (gotoStateByLutItem tables (tables.lut mark)) mark first.symb with
    lutProb := update tables.lutProb mark (arith.mul (tables.lutProb mark) first.prob) }

@[simp] theorem firstChild_lut (first : HistItem P) : (firstChild arith mark first tables).lut =
    update tables.lut mark (addSymbToItem (tables.lut mark) first.symb) := by
  unfold firstChild Tables.extend
  dsimp only
  rw [update_idem]

theorem Good.firstChild (arith : Arith P) {n : Nat} (h : Good n tables) (hm : mark < tables.lutSize)
    (hl : (tables.lut mark).length < itemSize) (first : HistItem P) :
    Sound (firstChild arith mark first tables) tables.lutSize := by
  constructor
  · rw [firstChild_lut]
    constructor
    · intro other ho
      rcases eq_or_ne other mark with rfl | hne
      · simp [addSymbToItem]
      · rw [update_of_ne hne]
        exact (h.used other ho).resolve_right (by omega)
    · intro other ho
      rw [update_of_ne (by omega)]
      exact h.empty other ho
  · rw [firstChild_lut]
    exact short_update h.short (by simpa [addSymbToItem] using Nat.succ_le_of_lt hl) mark
  · have hk : ∀ state symb,
        { tables with lut := update tables.lut mark [] }.nextState state symb ≤ tables.newState :=
      h.known
    exact known_extend hk (tables.lut mark) _ mark _

theorem expandItem_eq {first : HistItem P} {rest : List (HistItem P)}
    (hi : hist.items = first :: rest) (hm : mark < lutEntries - 1) :
    expandItem arith hist mark tables =
      (expand arith hist.items.length (tables.lut mark) (tables.lutProb mark)
        (gotoStateByLutItem tables (tables.lut mark)) 1 rest mark (arith.sub arith.one first.prob)
        (firstChild arith mark first tables)).map fun r => { r.1 with lutSize := r.2 + 1 } := by
  unfold expandItem
  dsimp only
  generalize hist.items.length = n
  rw [hi, expand, skipUsed]
  simp only [update_self, if_true, hm, Nat.lt_irrefl, false_and, and_false, if_false]
  rfl

theorem expandItem_spec (h : Good hist.items.length tables) (ht : hist.items ≠ [])
    (hs : tables.lutSize < lutEntries) (hm : searchLargestItem arith tables = some mark) :
    ∃ next, expandItem arith hist mark tables = .ok next ∧ Good hist.items.length next ∧
      rank hist.items.length next < rank hist.items.length tables := by
  obtain ⟨hlt, hl⟩ := search_spec hm
  obtain ⟨first, rest, hi⟩ := exists_cons_of_ne_nil ht
  have hc : hist.items.length ≤ 64 := by
    have := hist.distinct.length_le_card
    rwa [length_map, Fintype.card_fin] at this
  have hso := h.firstChild arith hlt hl first
  rw [expandItem_eq hi (by omega)]
  have hlen : hist.items.length = rest.length + 1 := by rw [hi, length_cons]
  rcases eq_or_ne rest [] with rfl | hne
  · -- the entry of the only symbol gets longer
    obtain ⟨hone, hst⟩ := h.single hlen
    obtain rfl : mark = 0 := by omega
    have hz : ((Tunstall.firstChild arith 0 first tables).lut 0).length =
        (tables.lut 0).length + 1 := by
      simp [addSymbToItem]
    rw [hone] at hso
    refine ⟨_, rfl, { hso with
      pos := Nat.one_pos
      le := Nat.le_of_ble_eq_true rfl
      used := fun _ _ => .inr rfl
      empty := hso.filled.2
      single := fun _ => ⟨rfl, (Nat.succ_le_succ hst).trans_eq hz.symm⟩
      several := (absurd hlen ·) }, ?_⟩
    unfold rank
    rw [if_pos (show _ = 1 from hlen), if_pos (show _ = 1 from hlen)]
    exact Nat.sub_lt_sub_left hl (hz ▸ Nat.lt_succ_self _)
  · have hr : tables.lut mark = [] → tables.lutSize + rest.length < lutEntries := by
      intro he
      have := (h.used mark hlt).resolve_left (not_not.2 he)
      have : lutEntries = 256 := rfl
      omega
    obtain ⟨next, last, heq, hn, hla, hg, hst⟩ := expand_spec arith hist.items.length
      (gotoStateByLutItem tables (tables.lut mark)) (tables.lutProb mark) hl 1
      (arith.sub arith.one first.prob) hso hlt (absurd · hne) hs hr
    have hk : hist.items.length ≠ 1 := by
      have := length_pos_of_ne_nil hne
      omega
    rw [if_neg hne] at hg
    rw [heq]
    refine ⟨_, rfl, { hn with
      pos := Nat.succ_pos last
      le := hla
      used := fun mark hm => .inl (hn.filled.1 mark hm)
      empty := hn.filled.2
      single := (absurd · hk)
      several := fun _ => ?_ }, ?_⟩
    · have hs := h.several hk
      have hp := h.pos
      change _ ≤ tables.newState + 1 + _ at hst
      dsimp only
      omega
    · unfold rank
      rw [if_neg hk, if_neg hk]
      exact Nat.sub_lt_sub_left hs hg

theorem buildLoop_spec (arith : Arith P) (h : Good hist.items.length tables) (ht : hist.items ≠ [])
    (hs : tables.lutSize < lutEntries) : ∃ next, Good hist.items.length next ∧ ∀ fuel,
    rank hist.items.length tables < fuel → buildLoop arith hist fuel tables = some (.ok next) := by
  induction hk : rank hist.items.length tables using Nat.strong_induction_on
    generalizing tables with
  | h k ih =>
  subst hk
  cases hm : searchLargestItem arith tables with
  | none =>
    refine ⟨tables, h, fun fuel hf => ?_⟩
    obtain ⟨fuel, rfl⟩ := Nat.exists_eq_add_one_of_ne_zero (Nat.ne_zero_of_lt hf)
    rw [buildLoop, hm]
  | some mark =>
    obtain ⟨next, he, hg, hr⟩ := expandItem_spec h ht hs hm
    by_cases hl : next.lutSize < lutEntries
    · obtain ⟨last, hla, hf⟩ := ih _ hr hg hl rfl
      refine ⟨last, hla, fun fuel hu => ?_⟩
      obtain ⟨fuel, rfl⟩ := Nat.exists_eq_add_one_of_ne_zero (Nat.ne_zero_of_lt hu)
      rw [buildLoop, hm]
      simp only [he, if_pos hl]
      exact hf fuel (by omega)
    · refine ⟨next, hg, fun fuel hu => ?_⟩
      obtain ⟨fuel, rfl⟩ := Nat.exists_eq_add_one_of_ne_zero (Nat.ne_zero_of_lt hu)
      rw [buildLoop, hm]
      simp only [he, if_neg hl]

theorem checkEmpty_ok {items : List LutItem} (h : ∀ item ∈ items, item = []) :
    checkEmpty items = .ok () := by
  induction items with
  | nil => rfl
  | cons item rest ih =>
    rw [forall_mem_cons] at h
    rw [checkEmpty, if_neg (not_not.2 h.1), ih h.2]

theorem checkItems_ok (h : Filled lut size) (hs : ∀ mark, (lut mark).length ≤ itemSize)
    (start count : Nat) : checkItems ((range' start count).map lut) = .ok () := by
  induction count generalizing start with
  | zero => rfl
  | succ count ih =>
    rw [range'_succ, map_cons, checkItems, if_neg (Nat.not_lt.2 (hs start)), ih]
    split <;> rename_i he
    · have hg : size ≤ start := Nat.not_lt.1 (mt (h.1 start) (not_not.2 he))
      apply checkEmpty_ok
      rw [← map_cons, ← range'_succ, forall_mem_map]
      intro mark hm
      exact h.2 mark (hg.trans (mem_range'_1.1 hm).1)
    · rfl

theorem Good.exists_filled {n : Nat} (h : Good n tables) :
    ∃ used ≤ lutEntries, Filled tables.lut used := by
  by_cases he : tables.lut 0 = []
  · have hone := (h.used 0 h.pos).resolve_left (not_not.2 he)
    refine ⟨0, Nat.zero_le _, nofun, fun mark _ => ?_⟩
    rcases Nat.eq_zero_or_pos mark with rfl | hp
    · exact he
    · exact h.empty mark (by omega)
  · refine ⟨tables.lutSize, h.le, fun mark hm => ?_, h.empty⟩
    rcases h.used mark hm with hu | hone
    · exact hu
    · rwa [show mark = 0 by omega]

theorem Good.newState_lt {n : Nat} (h : Good n tables) : tables.newState < encStates := by
  have he : encStates = 512 := rfl
  have hle : tables.lutSize ≤ 256 := h.le
  have hs : (tables.lut 0).length ≤ 7 := h.short 0
  rcases eq_or_ne n 1 with hn | hn
  · have := (h.single hn).2
    omega
  · have := h.several hn
    omega

/-- Whatever the comparisons of probabilities say, the table is built within its bounds. -/
theorem build_lut_in_bounds (arith : Arith P) (hist : Hist P) (hi : hist.items ≠ []) :
    ∃ tables, (∀ fuel, lutEntries ≤ fuel → buildLut arith hist fuel = some (.ok tables)) ∧
      (∃ used ≤ lutEntries, Filled tables.lut used) ∧
      (∀ mark, (tables.lut mark).length ≤ itemSize) ∧ tables.newState < encStates ∧
      (∀ state symb, tables.nextState state symb < encStates) ∧ checkLut tables.lut = .ok () := by
  have hstart : Good hist.items.length
      ({ lutProb := fun mark => if mark = 0 then arith.one else arith.zero } : Tables P) :=
    { pos := Nat.one_pos
      le := show 1 ≤ lutEntries by decide
      used := fun _ _ => .inr rfl
      empty := fun _ _ => rfl
      short := fun _ => Nat.zero_le _
      known := fun _ _ => le_rfl
      single := fun _ => ⟨rfl, le_rfl⟩
      several := fun _ => Nat.zero_le _ }
  obtain ⟨tables, h, hf⟩ := buildLoop_spec arith hstart hi
    (show 1 < lutEntries by decide)
  obtain ⟨used, hu, hfill⟩ := h.exists_filled
  refine ⟨tables, fun fuel hl => hf fuel (Nat.lt_of_lt_of_le ?_ hl), ⟨used, hu, hfill⟩, h.short,
    h.newState_lt, fun _ _ => (h.known _ _).trans_lt h.newState_lt, ?_⟩
  · unfold rank
    split
    · exact show 7 - 0 < 256 by decide
    · exact show 256 - 1 < 256 by decide
  · unfold checkLut
    rw [range_eq_range']
    exact checkItems_ok hfill h.short 0 lutEntries

/-- Two symbols, with the natural numbers for the probabilities. -/
theorem build_lut_in_bounds_two : ∃ tables, buildLut (P := Nat) ⟨0, 1, 1, (· * ·), (· - ·), (· < ·)⟩
    ⟨[⟨0, 1⟩, ⟨1, 1⟩], by decide⟩ lutEntries = some (.ok tables) ∧ tables.newState < encStates :=
  let ⟨tables, hb, _, _, hn, _⟩ := build_lut_in_bounds (P := Nat)
    ⟨0, 1, 1, (· * ·), (· - ·), (· < ·)⟩ ⟨[⟨0, 1⟩, ⟨1, 1⟩], by decide⟩ nofun
  ⟨tables, hb lutEntries le_rfl, hn⟩

end UnifiedCache.Compress.Tunstall
