import LineCensus.Counts
import Mathlib.Algebra.GroupWithZero.Nat
import Mathlib.Data.List.Induction

/-!
# Sums of counts

A sum exists exactly when every column of the exact sum fits into its counter. What the partial sums
are does not matter: however entries are merged, in whatever order and with whatever zeros between
them, it comes to the exact sum of each column or, if one of these does not fit, to nothing
(`merging_perm`).
-/

namespace LineCensus

namespace Counts

theorem get_lt (c : Counts) (column : Column) : c.get column < UInt64.size := by
  cases column <;> exact UInt64.toNat_lt_size _

theorem ext_get {a b : Counts} (h : ∀ column, a.get column = b.get column) : a = b := by
  obtain ⟨code, comments, blank, lines⟩ := a
  obtain ⟨code', comments', blank', lines'⟩ := b
  have h1 : code = code' := UInt64.toNat_inj.mp (h .code)
  have h2 : comments = comments' := UInt64.toNat_inj.mp (h .comments)
  have h3 : blank = blank' := UInt64.toNat_inj.mp (h .blank)
  have h4 : lines = lines' := UInt64.toNat_inj.mp (h .lines)
  rw [h1, h2, h3, h4]

theorem exists_get_eq {f : Column → Nat} (h : ∀ column, f column < UInt64.size) :
    ∃ c : Counts, ∀ column, c.get column = f column := by
  refine ⟨⟨.ofNat (f .code), .ofNat (f .comments), .ofNat (f .blank), .ofNat (f .lines)⟩, ?_⟩
  intro column
  cases column <;> exact UInt64.toNat_ofNat_of_lt (h _)

theorem addCounter?_eq_some_iff {a b c : UInt64} :
    addCounter? a b = some c ↔ c.toNat = a.toNat + b.toNat := by
  unfold addCounter?
  by_cases h : a.toNat + b.toNat < UInt64.size
  · rw [if_pos h, Option.some.injEq, ← UInt64.toNat_inj, UInt64.toNat_add, Nat.mod_eq_of_lt h]
    exact eq_comm
  · have := UInt64.toNat_lt_size c
    rw [if_neg h]
    exact ⟨fun e => (nomatch e), fun e => absurd this (by omega)⟩

theorem add?_eq_some_iff {a b c : Counts} :
    a.add? b = some c ↔ ∀ column, c.get column = a.get column + b.get column := by
  simp only [add?, Option.bind_eq_bind, Option.bind_eq_some_iff, addCounter?_eq_some_iff,
    Option.pure_def, Option.some.injEq]
  constructor
  · rintro ⟨_, h1, _, h2, _, h3, _, h4, rfl⟩ column
    cases column <;> assumption
  · intro h
    exact ⟨_, h .code, _, h .comments, _, h .blank, _, h .lines, rfl⟩

theorem addAll?_eq_some_iff {start c : Counts} {items : List Counts} :
    addAll? start items = some c ↔
      ∀ column, c.get column = start.get column + (items.map (·.get column)).sum := by
  unfold addAll?
  induction items generalizing start with
  | nil =>
    simp only [List.foldlM_nil, Option.pure_def, Option.some.injEq, List.map_nil, List.sum_nil,
      Nat.add_zero]
    exact ⟨fun h column => by rw [h], fun h => ext_get fun column => (h column).symm⟩
  | cons item items ih =>
    simp only [List.foldlM_cons, Option.bind_eq_bind, Option.bind_eq_some_iff, List.map_cons,
      List.sum_cons, ih]
    constructor
    · rintro ⟨next, hn, h⟩ column
      rw [h column, add?_eq_some_iff.mp hn column, Nat.add_assoc]
    · intro h
      -- the first partial sum is no larger than the whole
      obtain ⟨next, hn⟩ := exists_get_eq (f := fun k => start.get k + item.get k) fun k => by
        have := get_lt c k
        have := h k
        omega
      refine ⟨next, add?_eq_some_iff.mpr hn, fun column => ?_⟩
      rw [h column, hn column, Nat.add_assoc]

theorem sum?_eq_some_iff {c : Counts} {items : List Counts} :
    sum? items = some c ↔ ∀ column, c.get column = (items.map (·.get column)).sum := by
  rw [sum?, addAll?_eq_some_iff]
  have hz : ∀ column, zero.get column = 0 := fun column => by cases column <;> rfl
  simp only [hz, Nat.zero_add]

theorem sum?_eq_none_iff {items : List Counts} :
    sum? items = none ↔ ∃ column, UInt64.size ≤ (items.map (·.get column)).sum := by
  constructor
  · intro h
    refine Classical.byContradiction fun hn => ?_
    obtain ⟨c, hc⟩ := exists_get_eq (f := fun k => (items.map (·.get k)).sum) fun k =>
      Nat.lt_of_not_le fun hk => hn ⟨k, hk⟩
    rw [sum?_eq_some_iff.mpr hc] at h
    cases h
  · rintro ⟨column, hs⟩
    cases h : sum? items with
    | none => rfl
    | some c =>
      have := get_lt c column
      rw [sum?_eq_some_iff.mp h column] at this
      omega

theorem sum?_congr {items items' : List Counts}
    (h : ∀ column, (items.map (·.get column)).sum = (items'.map (·.get column)).sum) :
    sum? items = sum? items' := by
  refine Option.ext fun c => ?_
  rw [sum?_eq_some_iff, sum?_eq_some_iff]
  exact forall_congr' fun column => by rw [h column]

theorem sum?_singleton (c : Counts) : sum? [c] = some c := by
  refine sum?_eq_some_iff.mpr fun column => ?_
  rw [List.map_singleton, List.sum_singleton]

theorem addAll?_eq (start : Counts) (items : List Counts) :
    addAll? start items = (sum? items).bind start.add? := by
  refine Option.ext fun c => ?_
  simp only [Option.bind_eq_some_iff, addAll?_eq_some_iff, sum?_eq_some_iff, add?_eq_some_iff]
  constructor
  · intro h
    -- parts of a sum that fits fit as well
    obtain ⟨a, ha⟩ := exists_get_eq (f := fun k => (items.map (·.get k)).sum) fun k => by
      have := get_lt c k
      have := h k
      omega
    exact ⟨a, ha, fun column => by rw [h, ha]⟩
  · rintro ⟨a, ha, h⟩ column
    rw [h, ha]

theorem sum?_append (items items' : List Counts) : sum? (items ++ items') =
    (sum? items).bind fun a => (sum? items').bind fun b => a.add? b := by
  rw [sum?, addAll?, List.foldlM_append]
  exact Option.bind_congr fun a _ => addAll?_eq a items'

theorem sum?_perm {items items' : List Counts} (h : items.Perm items') :
    sum? items = sum? items' :=
  sum?_congr fun column => (h.map (·.get column)).sum_nat

end Counts

/-! ## Merging two at a time -/

/-- A way of merging entries two at a time, with the name that each merge gives. -/
inductive Merging
  | zero (name : Text)
  | item (e : Entry)
  | merge (name : Text) (left right : Merging)
  deriving Repr

namespace Merging

def items : Merging → List Entry
  | zero _ => []
  | item e => [e]
  | merge _ left right => left.items ++ right.items

def total? : Merging → Option Entry
  | zero name => some ⟨name, Counts.zero⟩
  | item e => some e
  | merge name left right => do
    let a ← left.total?
    let b ← right.total?
    a.merge? b name

/-- One entry after the other, from zero on. -/
def inTurn (name : Text) (items : List Entry) : Merging :=
  items.foldl (fun m e => merge name m (item e)) (zero name)

theorem counts_total? (m : Merging) :
    m.total?.map Entry.counts = Counts.sum? (m.items.map Entry.counts) := by
  induction m with
  | zero name => rfl
  | item e => exact (Counts.sum?_singleton e.counts).symm
  | merge name left right ihl ihr =>
    rw [items, List.map_append, Counts.sum?_append, ← ihl, ← ihr, total?]
    cases left.total? with
    | none => rfl
    | some a =>
      cases right.total? with
      | none => rfl
      | some b =>
        show Option.map Entry.counts ((a.counts.add? b.counts).map (Entry.mk name)) = _
        rw [Option.map_map]
        exact Option.map_id'

theorem total?_eq_none_iff {m : Merging} : m.total? = none ↔
    ∃ column, UInt64.size ≤ (m.items.map (·.counts.get column)).sum := by
  rw [← Option.map_eq_none_iff, counts_total?, Counts.sum?_eq_none_iff]
  simp only [List.map_map]
  rfl

theorem get_of_total? {m : Merging} {e : Entry} (h : m.total? = some e)
    (column : Counts.Column) : e.counts.get column = (m.items.map (·.counts.get column)).sum := by
  have hs : Counts.sum? (m.items.map Entry.counts) = some e.counts := by
    rw [← counts_total?, h, Option.map_some]
  rw [Counts.sum?_eq_some_iff.mp hs column, List.map_map]
  rfl

/-! ## One entry after the other -/

section
variable (name : Text)

theorem inTurn_snoc (items : List Entry) (e : Entry) :
    inTurn name (items ++ [e]) = merge name (inTurn name items) (item e) := by
  rw [inTurn, List.foldl_append]
  rfl

theorem items_inTurn (items : List Entry) : (inTurn name items).items = items := by
  induction items using List.reverseRecOn with
  | nil => rfl
  | append_singleton items e ih => rw [inTurn_snoc, Merging.items, ih, Merging.items]

theorem total?_inTurn (items : List Entry) :
    (inTurn name items).total? = Entry.total? name items := by
  induction items using List.reverseRecOn with
  | nil => rfl
  | append_singleton items e ih =>
    rw [inTurn_snoc, total?, ih, Entry.total?, Entry.total?, List.map_append, List.map_singleton,
      Counts.sum?_append, Counts.sum?_singleton]
    cases Counts.sum? (items.map Entry.counts) <;> rfl

end

end Merging

/-- However entries are merged, it comes to the counts that their total has, or to nothing if it has
none, and it has none exactly if the exact sum of some column does not fit. The total is one way of
merging them. -/
theorem merging_perm (items : List Entry) :
    (∀ m : Merging, m.items.Perm items →
      (∀ name, m.total?.map Entry.counts = (Entry.total? name items).map Entry.counts) ∧
      (m.total? = none ↔ ∃ column, UInt64.size ≤ (items.map (·.counts.get column)).sum) ∧
      ∀ e, m.total? = some e →
        ∀ column, e.counts.get column = (items.map (·.counts.get column)).sum) ∧
    ∀ name, ∃ m : Merging, m.items = items ∧ m.total? = Entry.total? name items := by
  constructor
  · intro m h
    have hsum : ∀ column, (m.items.map (·.counts.get column)).sum =
        (items.map (·.counts.get column)).sum :=
      fun column => (h.map (·.counts.get column)).sum_nat
    refine ⟨fun name => ?_, ?_, fun e he column => ?_⟩
    · rw [← Merging.total?_inTurn, Merging.counts_total?, Merging.counts_total?,
        Merging.items_inTurn, Counts.sum?_perm (h.map Entry.counts)]
    · rw [Merging.total?_eq_none_iff]
      simp only [hsum]
    · rw [Merging.get_of_total? he, hsum]
  · intro name
    exact ⟨Merging.inTurn name items, Merging.items_inTurn name items,
      Merging.total?_inTurn name items⟩

theorem merging_perm_sample :
    let a : Entry := ⟨['a'], ⟨1, 0, 0, 1⟩⟩
    let b : Entry := ⟨['b'], ⟨0, 2, 1, 3⟩⟩
    let c : Entry := ⟨['c'], ⟨0, 0, 0, 18446744073709551615⟩⟩
    let sum : Merging :=
      .merge ['t'] (.merge ['s'] (.item b) (.zero [])) (.item a)
    let full : Merging := .merge ['t'] (.merge ['s'] (.item c) (.item b)) (.item a)
    sum.items.Perm [a, b] ∧ full.items.Perm [a, b, c] ∧
      (∃ e, sum.total? = some e ∧ e.counts.get .lines = 4) ∧ full.total? = none := by
  intro a b c sum full
  have hs : sum.items.Perm [a, b] := by decide
  have hf : full.items.Perm [a, b, c] := by decide
  have he : sum.total? = some ⟨['t'], ⟨1, 2, 1, 4⟩⟩ := by decide
  refine ⟨hs, hf, ⟨_, he, ?_⟩, ?_⟩
  · exact ((merging_perm [a, b]).1 sum hs).2.2 _ he .lines
  · exact ((merging_perm [a, b, c]).1 full hf).2.1.mpr ⟨.lines, by decide⟩

end LineCensus
