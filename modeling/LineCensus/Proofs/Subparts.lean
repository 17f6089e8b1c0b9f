import LineCensus.Proofs.Decoding

/-!
# Bytes that encode nothing

`Decodes` says what bytes come to without a machine: a character is read back, and what encodes none
is replaced part by part, each part as long a start of a character as there is, or else one byte.
`decodes_iff`: this is what decoding yields.
-/

namespace LineCensus.Utf8

/-- Some character is encoded in bytes that start so. -/
def Begins (s : Bytes) : Prop :=
  ∃ c, s <+: encodeChar c

inductive Decodes : Bytes → Text → Prop
  | nil : Decodes [] []
  | char {r : Bytes} {t : Text} (c : Char) : Decodes r t → Decodes (encodeChar c ++ r) (c :: t)
  /-- A byte that no character starts with. -/
  | stray {b : UInt8} {r : Bytes} {t : Text} : ¬ Begins [b] → Decodes r t →
      Decodes (b :: r) (replacement :: t)
  /-- The start of a character that does not go on. -/
  | cut {s r : Bytes} {t : Text} : s ≠ [] → Begins s → (∀ c, encodeChar c ≠ s) →
      (∀ b ∈ r.head?, ¬ Begins (s ++ [b])) → Decodes r t → Decodes (s ++ r) (replacement :: t)

/-! ## Characters by their bytes -/

theorem toNat_char {n : Nat} (h : n < 0xD800 ∨ (0xDFFF < n ∧ n < 0x110000)) :
    (Char.ofNat n).toNat = n := by
  have hv : n.isValidChar := h
  rw [Char.ofNat, dif_pos hv]
  rfl

section
variable {k m m' m'' : Nat}

theorem encodeChar_two (h : 2 ≤ k) (hk : k < 0x20) (hm : m < 0x40) :
    encodeChar (Char.ofNat (k * 0x40 + m)) = [.ofNat (0xC0 + k), .ofNat (0x80 + m)] := by
  unfold encodeChar
  rw [toNat_char (by omega)]
  dsimp only
  rw [if_neg (by omega), if_pos (by omega), show (k * 0x40 + m) / 0x40 = k by omega,
    show (k * 0x40 + m) % 0x40 = m by omega]

theorem encodeChar_three (hk : k < 0x10) (hm : m < 0x40) (h0 : k = 0 → 0x20 ≤ m)
    (hD : k = 0xD → m < 0x20) (hm' : m' < 0x40) :
    encodeChar (Char.ofNat ((k * 0x40 + m) * 0x40 + m')) =
      [.ofNat (0xE0 + k), .ofNat (0x80 + m), .ofNat (0x80 + m')] := by
  unfold encodeChar
  rw [toNat_char (by omega)]
  dsimp only
  rw [if_neg (by omega), if_neg (by omega), if_pos (by omega),
    show ((k * 0x40 + m) * 0x40 + m') / 0x1000 = k by omega,
    show ((k * 0x40 + m) * 0x40 + m') / 0x40 % 0x40 = m by omega,
    show ((k * 0x40 + m) * 0x40 + m') % 0x40 = m' by omega]

theorem encodeChar_four (hk : k < 5) (hm : m < 0x40) (h0 : k = 0 → 0x10 ≤ m)
    (h4 : k = 4 → m < 0x10) (hm' : m' < 0x40) (hm'' : m'' < 0x40) :
    encodeChar (Char.ofNat (((k * 0x40 + m) * 0x40 + m') * 0x40 + m'')) =
      [.ofNat (0xF0 + k), .ofNat (0x80 + m), .ofNat (0x80 + m'), .ofNat (0x80 + m'')] := by
  unfold encodeChar
  rw [toNat_char (by omega)]
  dsimp only
  rw [if_neg (by omega), if_neg (by omega), if_neg (by omega),
    show (((k * 0x40 + m) * 0x40 + m') * 0x40 + m'') / 0x40000 = k by omega,
    show (((k * 0x40 + m) * 0x40 + m') * 0x40 + m'') / 0x1000 % 0x40 = m by omega,
    show (((k * 0x40 + m) * 0x40 + m') * 0x40 + m'') / 0x40 % 0x40 = m' by omega,
    show (((k * 0x40 + m) * 0x40 + m') * 0x40 + m'') % 0x40 = m'' by omega]

theorem toNat_eq_add {b : UInt8} {l : Nat} (h : l ≤ b.toNat) :
    ∃ n, b = .ofNat (l + n) ∧ b.toNat = l + n :=
  ⟨b.toNat - l, by rw [Nat.add_sub_cancel' h, UInt8.ofNat_toNat], (Nat.add_sub_cancel' h).symm⟩

end

/-! ## Starts of characters -/

/-- Reading `s` leaves a character begun, and the bytes it takes are those of some character. -/
structure Open (s : Bytes) (begun : Begun) : Prop where
  read : ∀ r, decode (s ++ r) = decodeFrom (some begun) r
  takes : ∀ b : UInt8, begun.least ≤ b.toNat → b.toNat ≤ begun.greatest → Begins (s ++ [b])

section
variable {k m m' : Nat}

theorem open_two (h : 2 ≤ k) (hk : k < 0x20) :
    Open [.ofNat (0xC0 + k)] ⟨k, 0, 0x80, 0xBF⟩ where
  read _ := decode_two h hk
  takes b hl hg := by
    obtain ⟨m, rfl, hb⟩ := toNat_eq_add hl
    rw [hb] at hg
    exact ⟨_, [], (encodeChar_two h hk (by dsimp only at hg; omega)).symm⟩

theorem open_three (hk : k < 0x10) : ∃ begun, Open [.ofNat (0xE0 + k)] begun := by
  obtain ⟨least, greatest, hf, h80, ht⟩ := first_three hk
  refine ⟨_, ⟨fun _ => decode_cons_of_first hf, fun b hl hg => ?_⟩⟩
  obtain ⟨m, rfl, hb⟩ := toNat_eq_add (Nat.le_trans h80 hl)
  rw [hb] at hl hg
  obtain ⟨hm, h0, hD⟩ := (ht m).mp ⟨hl, hg⟩
  exact ⟨_, [.ofNat (0x80 + 0)], (encodeChar_three hk hm h0 hD (by decide)).symm⟩

theorem open_three_second (hk : k < 0x10) (hm : m < 0x40) (h0 : k = 0 → 0x20 ≤ m)
    (hD : k = 0xD → m < 0x20) :
    Open [.ofNat (0xE0 + k), .ofNat (0x80 + m)] ⟨k * 0x40 + m, 0, 0x80, 0xBF⟩ where
  read _ := decode_three hk hm h0 hD
  takes b hl hg := by
    obtain ⟨m', rfl, hb⟩ := toNat_eq_add hl
    rw [hb] at hg
    exact ⟨_, [], (encodeChar_three hk hm h0 hD (by dsimp only at hg; omega)).symm⟩

theorem open_four (hk : k < 5) : ∃ begun, Open [.ofNat (0xF0 + k)] begun := by
  obtain ⟨least, greatest, hf, h80, ht⟩ := first_four hk
  refine ⟨_, ⟨fun _ => decode_cons_of_first hf, fun b hl hg => ?_⟩⟩
  obtain ⟨m, rfl, hb⟩ := toNat_eq_add (Nat.le_trans h80 hl)
  rw [hb] at hl hg
  obtain ⟨hm, h0, h4⟩ := (ht m).mp ⟨hl, hg⟩
  exact ⟨_, [.ofNat (0x80 + 0), .ofNat (0x80 + 0)],
    (encodeChar_four hk hm h0 h4 (by decide) (by decide)).symm⟩

theorem open_four_second (hk : k < 5) (hm : m < 0x40) (h0 : k = 0 → 0x10 ≤ m)
    (h4 : k = 4 → m < 0x10) :
    Open [.ofNat (0xF0 + k), .ofNat (0x80 + m)] ⟨k * 0x40 + m, 1, 0x80, 0xBF⟩ where
  read _ := decode_four hk hm h0 h4
  takes b hl hg := by
    obtain ⟨m', rfl, hb⟩ := toNat_eq_add hl
    rw [hb] at hg
    exact ⟨_, [.ofNat (0x80 + 0)],
      (encodeChar_four hk hm h0 h4 (by dsimp only at hg; omega) (by decide)).symm⟩

theorem open_four_third (hk : k < 5) (hm : m < 0x40) (h0 : k = 0 → 0x10 ≤ m)
    (h4 : k = 4 → m < 0x10) (hm' : m' < 0x40) :
    Open [.ofNat (0xF0 + k), .ofNat (0x80 + m), .ofNat (0x80 + m')]
      ⟨(k * 0x40 + m) * 0x40 + m', 0, 0x80, 0xBF⟩ where
  read r := by
    rw [List.cons_append, List.cons_append, decode_four hk hm h0 h4, List.cons_append,
      decodeFrom_next hm' (by omega) (by omega)]
    rfl
  takes b hl hg := by
    obtain ⟨m'', rfl, hb⟩ := toNat_eq_add hl
    rw [hb] at hg
    exact ⟨_, [], (encodeChar_four hk hm h0 h4 hm' (by dsimp only at hg; omega)).symm⟩

end

theorem encodeChar_cases (c : Char) :
    (∃ b, encodeChar c = [b]) ∨
    (∃ k m, 2 ≤ k ∧ k < 0x20 ∧ encodeChar c = [.ofNat (0xC0 + k), m]) ∨
    (∃ k m m', k < 0x10 ∧ m < 0x40 ∧ (k = 0 → 0x20 ≤ m) ∧ (k = 0xD → m < 0x20) ∧
      encodeChar c = [.ofNat (0xE0 + k), .ofNat (0x80 + m), m']) ∨
    ∃ k m m' m'', k < 5 ∧ m < 0x40 ∧ (k = 0 → 0x10 ≤ m) ∧ (k = 4 → m < 0x10) ∧ m' < 0x40 ∧
      encodeChar c = [.ofNat (0xF0 + k), .ofNat (0x80 + m), .ofNat (0x80 + m'), m''] := by
  have hv := toNat_cases c
  unfold encodeChar
  dsimp only
  by_cases h1 : c.toNat < 0x80
  · exact Or.inl ⟨_, if_pos h1⟩
  rw [if_neg h1]
  by_cases h2 : c.toNat < 0x800
  · exact Or.inr (Or.inl ⟨_, _, by omega, by omega, if_pos h2⟩)
  rw [if_neg h2]
  by_cases h3 : c.toNat < 0x10000
  · refine Or.inr (Or.inr (Or.inl ⟨_, _, _, ?_, ?_, ?_, ?_, if_pos h3⟩)) <;> omega
  · refine Or.inr (Or.inr (Or.inr ⟨_, _, _, _, ?_, ?_, ?_, ?_, ?_, if_neg h3⟩)) <;> omega

theorem prefix_cons_cases {a b : UInt8} {s l : Bytes} (h : s <+: a :: b :: l) (hs : s ≠ []) :
    s = [a] ∨ ∃ r, r ≠ [] ∧ r <+: b :: l ∧ s = a :: r := by
  obtain ⟨r, rfl, hr⟩ := (List.prefix_cons_iff.mp h).resolve_left hs
  by_cases hn : r = []
  · exact Or.inl (by rw [hn])
  · exact Or.inr ⟨r, hn, hr, rfl⟩

theorem eq_of_prefix_singleton {a : UInt8} {s : Bytes} (h : s <+: [a]) (hs : s ≠ []) : s = [a] := by
  obtain ⟨r, rfl, hr⟩ := (List.prefix_cons_iff.mp h).resolve_left hs
  rw [List.prefix_nil.mp hr]

theorem exists_open {s : Bytes} (hs : s ≠ []) (hb : Begins s) (hw : ∀ c, encodeChar c ≠ s) :
    ∃ begun, Open s begun := by
  obtain ⟨c, hp⟩ := hb
  rcases encodeChar_cases c with ⟨b, he⟩ | ⟨k, m, h, hk, he⟩ | ⟨k, m, m', hk, hm, h0, hD, he⟩ |
    ⟨k, m, m', m'', hk, hm, h0, h4, hm', he⟩ <;> rw [he] at hp
  · exact absurd (he.trans (eq_of_prefix_singleton hp hs).symm) (hw c)
  · rcases prefix_cons_cases hp hs with rfl | ⟨r, hr, hp1, rfl⟩
    · exact ⟨_, open_two h hk⟩
    · rw [eq_of_prefix_singleton hp1 hr] at hw
      exact absurd he (hw c)
  · rcases prefix_cons_cases hp hs with rfl | ⟨r, hr, hp1, rfl⟩
    · exact open_three hk
    rcases prefix_cons_cases hp1 hr with rfl | ⟨r, hr1, hp2, rfl⟩
    · exact ⟨_, open_three_second hk hm h0 hD⟩
    · rw [eq_of_prefix_singleton hp2 hr1] at hw
      exact absurd he (hw c)
  · rcases prefix_cons_cases hp hs with rfl | ⟨r, hr, hp1, rfl⟩
    · exact open_four hk
    rcases prefix_cons_cases hp1 hr with rfl | ⟨r, hr1, hp2, rfl⟩
    · exact ⟨_, open_four_second hk hm h0 h4⟩
    rcases prefix_cons_cases hp2 hr1 with rfl | ⟨r, hr2, hp3, rfl⟩
    · exact ⟨_, open_four_third hk hm h0 h4 hm'⟩
    · rw [eq_of_prefix_singleton hp3 hr2] at hw
      exact absurd he (hw c)

/-! ## What decoding yields -/

theorem decode_cut {s r : Bytes} (hs : s ≠ []) (hb : Begins s) (hw : ∀ c, encodeChar c ≠ s)
    (hr : ∀ b ∈ r.head?, ¬ Begins (s ++ [b])) : decode (s ++ r) = replacement :: decode r := by
  obtain ⟨begun, ho⟩ := exists_open hs hb hw
  rw [ho.read]
  cases r with
  | nil => rfl
  | cons b r =>
    have hn : ¬ (begun.least ≤ b.toNat ∧ b.toNat ≤ begun.greatest) :=
      fun h => hr b rfl (ho.takes b h.1 h.2)
    rw [decodeFrom, step, if_neg hn]
    rfl

theorem begins_ascii {n : Nat} (h : n < 0x80) : Begins [.ofNat n] := by
  refine ⟨Char.ofNat n, [], ?_⟩
  unfold encodeChar
  rw [toNat_char (by omega)]
  exact (if_pos h).symm

theorem begins_three {k : Nat} (hk : k < 0x10) : Begins [.ofNat (0xE0 + k)] := by
  have h0 : 0 < 0x40 := by decide
  have h20 : 0x20 < 0x40 := by decide
  by_cases hz : k = 0
  · exact ⟨_, _, (encodeChar_three hk h20 (by omega) (by omega) h0).symm⟩
  · exact ⟨_, _, (encodeChar_three hk h0 (by omega) (by omega) h0).symm⟩

theorem begins_four {k : Nat} (hk : k < 5) : Begins [.ofNat (0xF0 + k)] := by
  have h0 : 0 < 0x40 := by decide
  have h10 : 0x10 < 0x40 := by decide
  by_cases hz : k = 0
  · exact ⟨_, _, (encodeChar_four hk h10 (by omega) (by omega) h0 h0).symm⟩
  · exact ⟨_, _, (encodeChar_four hk h0 (by omega) (by omega) h0 h0).symm⟩

theorem first_of_not_begins {b : UInt8} (h : ¬ Begins [b]) : first b = ([replacement], none) := by
  by_cases h1 : b.toNat < 0x80
  · obtain ⟨n, rfl, hb⟩ := toNat_eq_add (Nat.zero_le b.toNat)
    rw [hb] at h1
    rw [Nat.zero_add] at h
    exact absurd (begins_ascii (by omega)) h
  by_cases h2 : b.toNat < 0xC2
  · rw [first, if_neg h1, if_pos h2]
  by_cases h3 : b.toNat < 0xE0
  · obtain ⟨k, rfl, hb⟩ := toNat_eq_add (show 0xC0 ≤ b.toNat by omega)
    exact absurd ⟨_, _, (encodeChar_two (by omega) (by omega) (show 0 < 0x40 by decide)).symm⟩ h
  by_cases h4 : b.toNat < 0xF0
  · obtain ⟨k, rfl, hb⟩ := toNat_eq_add (show 0xE0 ≤ b.toNat by omega)
    exact absurd (begins_three (by omega)) h
  by_cases h5 : b.toNat < 0xF5
  · obtain ⟨k, rfl, hb⟩ := toNat_eq_add (show 0xF0 ≤ b.toNat by omega)
    exact absurd (begins_four (by omega)) h
  · rw [first]
    rw [if_neg h1, if_neg h2, if_neg h3, if_neg (by omega), if_neg (by omega), if_neg h4,
      if_neg (by omega), if_neg (by omega), if_neg (by omega)]

theorem decode_stray {b : UInt8} (h : ¬ Begins [b]) (r : Bytes) :
    decode (b :: r) = replacement :: decode r := by
  rw [decode, decodeFrom, step, first_of_not_begins h]
  rfl

theorem exists_longest {s : Bytes} (hb : Begins s) (r : Bytes) :
    ∃ s' r', s ++ r = s' ++ r' ∧ s <+: s' ∧ Begins s' ∧ ∀ b ∈ r'.head?, ¬ Begins (s' ++ [b]) := by
  induction r generalizing s with
  | nil => exact ⟨s, [], rfl, List.prefix_refl s, hb, nofun⟩
  | cons b r ih =>
    by_cases hn : Begins (s ++ [b])
    · obtain ⟨s', r', he, hp, hb', hr⟩ := ih hn
      rw [List.append_assoc, List.singleton_append] at he
      exact ⟨s', r', he, (List.prefix_append s [b]).trans hp, hb', hr⟩
    · refine ⟨s, b :: r, rfl, List.prefix_refl s, hb, ?_⟩
      rintro _ ⟨⟩
      exact hn

theorem exists_decodes (bytes : Bytes) : ∃ t, Decodes bytes t := by
  match bytes with
  | [] => exact ⟨[], .nil⟩
  | b :: r =>
    by_cases hb : Begins [b]
    · obtain ⟨s, r', he, hp, hs, hr⟩ := exists_longest hb r
      have hne : s ≠ [] := fun h => by rw [h] at hp; exact absurd (List.prefix_nil.mp hp) nofun
      have shorter : r'.length < r.length + 1 := by
        have hpos := List.length_pos_iff.mpr hne
        rw [← List.length_cons, ← List.singleton_append, he, List.length_append]
        omega
      obtain ⟨t, ht⟩ := exists_decodes r'
      rw [← List.singleton_append, he]
      by_cases hw : ∃ c, encodeChar c = s
      · obtain ⟨c, rfl⟩ := hw
        exact ⟨c :: t, .char c ht⟩
      · exact ⟨replacement :: t, .cut hne hs (fun c h => hw ⟨c, h⟩) hr ht⟩
    · obtain ⟨t, ht⟩ := exists_decodes r
      exact ⟨replacement :: t, .stray hb ht⟩
termination_by bytes.length

theorem decodes_iff {bytes : Bytes} {t : Text} : Decodes bytes t ↔ decode bytes = t := by
  have hd : ∀ {t}, Decodes bytes t → decode bytes = t := by
    intro t h
    induction h with
    | nil => rfl
    | char c _ ih => rw [decode_encodeChar_append, ih]
    | stray hb _ ih => rw [decode_stray hb, ih]
    | cut hs hb hw hr _ ih => rw [decode_cut hs hb hw hr, ih]
  constructor
  · exact hd
  · rintro rfl
    obtain ⟨t, ht⟩ := exists_decodes bytes
    rwa [hd ht]

end LineCensus.Utf8
