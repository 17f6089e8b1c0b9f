import LineCensus.Proofs.RunCounts
import LineCensus.Proofs.Settling

/-!
# Balance

A line is blank or holds code, a comment or both. So blank lines and the larger one of the columns for
code and comments are no more than the lines, and all three columns together are no fewer. These two
bounds are all that recording lines and adding up keep (`reachable_iff_balanced`), and whatever is
counted meets them (`results_balanced`).
-/

namespace LineCensus

/-! ## Columns of kinds -/

namespace LineKind

theorem sum_append (column : Counts.Column) (kinds kinds' : List LineKind) :
    sum column (kinds ++ kinds') = sum column kinds + sum column kinds' := by
  rw [sum, List.map_append, List.sum_append, sum, sum]

theorem sum_replicate (column : Counts.Column) (n : Nat) (k : LineKind) :
    sum column (List.replicate n k) = n * k.counts.get column := by
  rw [sum, List.map_replicate, List.sum_replicate_nat]

theorem sum_eq_countP {column : Counts.Column} {p : LineKind → Bool}
    (h : ∀ k : LineKind, k.counts.get column = (p k).toNat) (kinds : List LineKind) :
    sum column kinds = kinds.countP p := by
  induction kinds with
  | nil => rfl
  | cons k kinds ih =>
    rw [sum_cons, ih, h, List.countP_cons, Nat.add_comm]
    cases p k <;> rfl

end LineKind

namespace Counts

/-! ## Balanced columns -/

/-- No line is blank and more than that, and each is in some column. -/
structure Balances (f : Column → Nat) : Prop where
  no_fewer : f .blank + max (f .code) (f .comments) ≤ f .lines
  no_more : f .lines ≤ f .code + f .comments + f .blank

def Balanced (c : Counts) : Prop :=
  Balances c.get

theorem Balances.add {f g : Column → Nat} (hf : Balances f) (hg : Balances g) :
    Balances fun column => f column + g column := by
  have hf1 := hf.no_fewer
  have hf2 := hf.no_more
  have hg1 := hg.no_fewer
  have hg2 := hg.no_more
  constructor <;> omega

theorem balances_zero : Balances fun _ => 0 :=
  ⟨Nat.le_refl 0, Nat.le_refl 0⟩

theorem balances_sum {items : List Counts} (h : ∀ item ∈ items, item.Balanced) :
    Balances fun column => (items.map (·.get column)).sum := by
  induction items with
  | nil => exact balances_zero
  | cons item items ih =>
    have hitem := h item (List.mem_cons_self ..)
    simp only [List.map_cons, List.sum_cons]
    exact hitem.add (ih fun item hm => h item (List.mem_cons_of_mem _ hm))

theorem balanced_counts (k : LineKind) : k.counts.Balanced := by
  cases k <;> exact ⟨by decide, by decide⟩

/-! ## Reachable counts -/

/-- Counts that recording lines and adding up lead to, from zero on. -/
inductive Reachable : Counts → Prop
  | zero : Reachable zero
  | record {c c' : Counts} (kind : LineKind) :
      Reachable c → c.add? kind.counts = some c' → Reachable c'
  | merge {a b c : Counts} : Reachable a → Reachable b → a.add? b = some c → Reachable c
  | sum {items : List Counts} {c : Counts} :
      (∀ item ∈ items, Reachable item) → sum? items = some c → Reachable c

theorem Balanced.add? {a b c : Counts} (ha : a.Balanced) (hb : b.Balanced)
    (h : a.add? b = some c) : c.Balanced := by
  have hc : c.get = fun column => a.get column + b.get column := funext (add?_eq_some_iff.mp h)
  rw [Balanced, hc]
  exact Balances.add ha hb

theorem Balanced.sum? {items : List Counts} {c : Counts} (hi : ∀ item ∈ items, item.Balanced)
    (h : Counts.sum? items = some c) : c.Balanced := by
  have hc : c.get = fun column => (items.map (·.get column)).sum :=
    funext (sum?_eq_some_iff.mp h)
  rw [Balanced, hc]
  exact balances_sum hi

theorem Reachable.balanced {c : Counts} (h : c.Reachable) : c.Balanced := by
  induction h with
  | zero => exact ⟨by decide, by decide⟩
  | record kind _ hc ih => exact ih.add? (balanced_counts kind) hc
  | merge _ _ hc iha ihb => exact iha.add? ihb hc
  | sum _ hc ih => exact Balanced.sum? ih hc

theorem Reachable.addAll? {c c' : Counts} {kinds : List LineKind} (hc : c.Reachable)
    (h : c.addAll? (kinds.map LineKind.counts) = some c') : c'.Reachable := by
  induction kinds generalizing c with
  | nil => cases h; exact hc
  | cons kind kinds ih =>
    rw [List.map_cons, Counts.addAll?, List.foldlM_cons, Option.bind_eq_bind,
      Option.bind_eq_some_iff] at h
    obtain ⟨next, hn, hl⟩ := h
    exact ih (hc.record kind hn) hl

theorem reachable_of_sum {c : Counts} (kinds : List LineKind)
    (h : ∀ column, c.get column = LineKind.sum column kinds) : c.Reachable := by
  have hs : sum? (kinds.map LineKind.counts) = some c := by
    refine sum?_eq_some_iff.mpr fun column => ?_
    rw [LineKind.map_get_counts, h]
  exact Reachable.zero.addAll? hs

/-- Every line beyond the blank ones holds both code and comment if the columns are too large for it
to hold one of them alone. -/
theorem Balanced.reachable {c : Counts} (h : c.Balanced) : c.Reachable := by
  have h1 := h.no_fewer
  have h2 := h.no_more
  let blanks := List.replicate (c.get .blank) LineKind.blank
  let mixed := List.replicate
    (c.get .code + c.get .comments + c.get .blank - c.get .lines) LineKind.mixed
  let code := List.replicate (c.get .lines - c.get .blank - c.get .comments) LineKind.code
  let comments := List.replicate (c.get .lines - c.get .blank - c.get .code) LineKind.comment
  apply reachable_of_sum (blanks ++ (mixed ++ (code ++ comments)))
  intro column
  simp only [blanks, mixed, code, comments, LineKind.sum_append, LineKind.sum_replicate]
  cases column <;> simp only [LineKind.counts, get, UInt64.toNat_zero, UInt64.toNat_one] <;>
    simp only [get] at h1 h2 <;> omega

theorem reachable_iff_balanced (c : Counts) : c.Reachable ↔ c.Balanced :=
  ⟨Reachable.balanced, Balanced.reachable⟩

end Counts

/-! ## Results -/

section
variable {rules : Rules} {policy : BlankInBlock}

theorem balanced_of_feed? {t next : Tally} {line : Text} {kind : LineKind}
    (ht : t.counts.Balanced) (h : t.feed? rules policy line = some (kind, next)) :
    next.counts.Balanced :=
  ht.add? (Counts.balanced_counts kind) (Rules.of_feed? rules policy h).2.2

theorem balanced_of_feedAll? {t last : Tally} {lines : List Text} (ht : t.counts.Balanced)
    (h : t.feedAll? rules policy lines = some last) : last.counts.Balanced := by
  obtain ⟨kinds, hf⟩ : ∃ kinds, t.Feeds rules policy lines kinds last :=
    ⟨_, Tally.feeds_iff.mpr ⟨h, rfl⟩⟩
  clear h
  induction hf with
  | nil => exact ht
  | cons hn _ ih => exact ih (balanced_of_feed? ht hn)

theorem balanced_start : Tally.start.counts.Balanced :=
  Counts.Reachable.zero.balanced

theorem balanced_of_countLines? {lines : List Text} {c : Counts}
    (h : countLines? rules policy lines = some c) : c.Balanced := by
  obtain ⟨t, ht, rfl⟩ := Option.map_eq_some_iff.mp h
  exact balanced_of_feedAll? balanced_start ht

theorem balanced_of_mem_files {o : Options} {tree : FileTree} {roots : List Path} {e : Entry}
    (h : e ∈ o.files tree roots) : e.counts.Balanced := by
  obtain ⟨path, -, hc⟩ := List.mem_filterMap.mp h
  obtain ⟨l, -, hf⟩ := Options.countFile_eq_ok_iff.mp (Options.counted?_eq_some_iff.mp hc)
  obtain ⟨bytes, hb⟩ := exists_countBytes?_of_countFile hf
  exact balanced_of_countLines? hb

theorem balanced_of_of? {files : List Entry} {skipped : List Skip} {c : Census}
    (hf : ∀ e ∈ files, e.counts.Balanced) (h : Census.of? files skipped = some c) :
    c.total.counts.Balanced := by
  obtain ⟨total, ht, rfl⟩ := Option.map_eq_some_iff.mp h
  obtain ⟨counts, hc, rfl⟩ := Option.map_eq_some_iff.mp ht
  refine Counts.Balanced.sum? (fun item hi => ?_) hc
  obtain ⟨e, he, rfl⟩ := List.mem_map.mp hi
  exact hf e he

/-- The columns of a fresh tally are the numbers of lines, of kinds with code, of kinds with a comment
and of blank kinds. -/
theorem columns_of_feeds {lines : List Text} {kinds : List LineKind} {t : Tally}
    (h : Tally.start.Feeds rules policy lines kinds t) :
    t.counts.lines.toNat = lines.length ∧
      t.counts.code.toNat = kinds.countP LineKind.hasCode ∧
      t.counts.comments.toNat = kinds.countP LineKind.hasComment ∧
      t.counts.blank.toNat = kinds.count .blank := by
  obtain ⟨ht, rfl⟩ := Tally.feeds_iff.mp h
  have hc := (Rules.of_feedAll?_start rules policy ht).2
  refine ⟨?_, ?_, ?_, ?_⟩
  · exact (hc .lines).trans ((LineKind.sum_lines _).trans (Rules.length_kindsOf ..))
  · exact (hc .code).trans (LineKind.sum_eq_countP (by intro k; cases k <;> rfl) _)
  · exact (hc .comments).trans (LineKind.sum_eq_countP (by intro k; cases k <;> rfl) _)
  · exact (hc .blank).trans (LineKind.sum_eq_countP (by intro k; cases k <;> rfl) _)

end

/-- Counts are reached from zero exactly if they are balanced. Tallies stay balanced, and what a
text, bytes or a census come to is balanced. A fresh tally takes as many lines as its counters hold,
and its columns are the numbers of the kinds that it returns. -/
theorem results_balanced :
    (∀ c : Counts, c.Reachable ↔
      c.blank.toNat + max c.code.toNat c.comments.toNat ≤ c.lines.toNat ∧
        c.lines.toNat ≤ c.code.toNat + c.comments.toNat + c.blank.toNat) ∧
    (Tally.start.counts.Reachable ∧ ∀ rules policy (t : Tally), t.counts.Reachable →
      (∀ line kind next, t.feed? rules policy line = some (kind, next) → next.counts.Reachable) ∧
        ∀ lines last, t.feedAll? rules policy lines = some last → last.counts.Reachable) ∧
    (∀ rules policy text c, countText? rules policy text = some c → c.Reachable) ∧
    (∀ rules policy bytes c, countBytes? rules policy bytes = some c → c.Reachable) ∧
    (∀ tree o roots c, census tree o roots = .ok c →
      (∀ e ∈ c.files, e.counts.Reachable) ∧ c.total.counts.Reachable) ∧
    ∀ rules policy lines,
      (lines.length < UInt64.size → ∃ kinds t, Tally.start.Feeds rules policy lines kinds t) ∧
        ∀ kinds t, Tally.start.Feeds rules policy lines kinds t →
          t.counts.lines.toNat = lines.length ∧
            t.counts.code.toNat = kinds.countP LineKind.hasCode ∧
            t.counts.comments.toNat = kinds.countP LineKind.hasComment ∧
            t.counts.blank.toNat = kinds.count .blank := by
  simp only [Counts.reachable_iff_balanced]
  refine ⟨fun c => ⟨fun h => ⟨h.no_fewer, h.no_more⟩, fun h => ⟨h.1, h.2⟩⟩,
    ⟨balanced_start, fun rules policy t ht => ⟨?_, ?_⟩⟩, ?_, ?_, ?_, ?_⟩
  · intro line kind next h
    exact balanced_of_feed? ht h
  · intro lines last h
    exact balanced_of_feedAll? ht h
  · intro rules policy text c h
    exact balanced_of_countLines? h
  · intro rules policy bytes c h
    exact balanced_of_countLines? h
  · intro tree o roots c h
    obtain ⟨skipped, hc⟩ := exists_of?_of_census h
    have hf : ∀ e ∈ o.files tree roots, e.counts.Balanced := fun e => balanced_of_mem_files
    refine ⟨?_, balanced_of_of? hf hc⟩
    rw [files_of_census h]
    exact hf
  · intro rules policy lines
    refine ⟨fun h => ?_, fun kinds t => columns_of_feeds⟩
    obtain ⟨t, ht, -⟩ := Rules.exists_feedAll?_start rules policy h
    exact ⟨_, t, Tally.feeds_iff.mpr ⟨ht, rfl⟩⟩

theorem results_balanced_sample :
    let text := "a /* b\n\n*/ c // d\n".toList
    (∃ c : Counts, countText? Rules.brace .blank text = some c ∧ c = ⟨2, 2, 1, 3⟩ ∧ c.Reachable ∧
      c.lines.toNat ≤ c.code.toNat + c.comments.toNat + c.blank.toNat) ∧
    (Text.lines text).length < UInt64.size ∧ ∃ kinds t,
      Tally.start.Feeds Rules.brace .blank (Text.lines text) kinds t ∧ t.counts.lines.toNat = 3 := by
  intro text
  have hc : countText? Rules.brace .blank text = some ⟨2, 2, 1, 3⟩ := by decide +kernel
  have hr := results_balanced.2.2.1 Rules.brace .blank text _ hc
  have hl : (Text.lines text).length < UInt64.size := by decide
  obtain ⟨hfeeds, hcolumns⟩ :=
    results_balanced.2.2.2.2.2 Rules.brace .blank (Text.lines text)
  obtain ⟨kinds, t, hf⟩ := hfeeds hl
  exact ⟨⟨_, hc, rfl, hr, ((results_balanced.1 _).mp hr).2⟩, hl, kinds, t, hf,
    (hcolumns kinds t hf).1⟩

end LineCensus
