import Mathlib

/-!
# UTF-8 with replacement

Text is decoded one byte at a time. A byte that cannot go on with the character before it, or
start one, and a character that is not complete at the end, are replaced. Bytes that are decoded in
pieces give the same text if no piece starts inside a character, and more characters otherwise.
The order of texts is that of their bytes.
-/

namespace Utf8

def replacement : Char := '\uFFFD'

/-- A byte inside a character of several bytes. -/
def IsContinuation (b : UInt8) : Prop := 0x80 ≤ b.toNat ∧ b.toNat < 0xC0

instance (b : UInt8) : Decidable (IsContinuation b) := inferInstanceAs (Decidable (_ ∧ _))

def encode (s : List Char) : List UInt8 := s.flatMap String.utf8EncodeChar

inductive State
  | ready
  /-- The next byte is between the bounds and then so many bytes are left. -/
  | more (left lower upper code : ℕ)
  deriving DecidableEq

/-- A byte where a character starts. -/
def start (b : ℕ) : List Char × State :=
  if b < 0x80 then ([Char.ofNat b], .ready)
  else if 0xC2 ≤ b ∧ b ≤ 0xDF then ([], .more 0 0x80 0xBF (b - 0xC0))
  else if 0xE0 ≤ b ∧ b ≤ 0xEF then
    ([], .more 1 (if b = 0xE0 then 0xA0 else 0x80) (if b = 0xED then 0x9F else 0xBF) (b - 0xE0))
  else if 0xF0 ≤ b ∧ b ≤ 0xF4 then
    ([], .more 2 (if b = 0xF0 then 0x90 else 0x80) (if b = 0xF4 then 0x8F else 0xBF) (b - 0xF0))
  else ([replacement], .ready)

def step (s : State) (b : ℕ) : List Char × State :=
  match s with
  | .ready => start b
  | .more left lower upper code =>
    if lower ≤ b ∧ b ≤ upper then
      let code := code * 64 + (b - 0x80)
      match left with
      | 0 => ([Char.ofNat code], .ready)
      | left + 1 => ([], .more left 0x80 0xBF code)
    else (replacement :: (start b).1, (start b).2)

def decodeFrom : State → List UInt8 → List Char
  | .ready, [] => []
  | .more _ _ _ _, [] => [replacement]
  | s, b :: bytes => (step s b.toNat).1 ++ decodeFrom (step s b.toNat).2 bytes

def decode (bytes : List UInt8) : List Char := decodeFrom .ready bytes

/-- The text, if the bytes are UTF-8. -/
def decode? (bytes : List UInt8) : Option (List Char) :=
  if encode (decode bytes) = bytes then some (decode bytes) else none

@[simp] theorem decodeFrom_ready_nil : decodeFrom .ready [] = [] := rfl

@[simp] theorem decode_nil : decode [] = [] := rfl

theorem decodeFrom_cons (s : State) (b : UInt8) (bytes : List UInt8) :
    decodeFrom s (b :: bytes) = (step s b.toNat).1 ++ decodeFrom (step s b.toNat).2 bytes := by
  cases s <;> rfl

@[simp] theorem encode_nil : encode [] = [] := rfl

@[simp] theorem encode_cons (c : Char) (s : List Char) :
    encode (c :: s) = String.utf8EncodeChar c ++ encode s := rfl

@[simp] theorem encode_append (s t : List Char) : encode (s ++ t) = encode s ++ encode t :=
  List.flatMap_append

/-! ## One character -/

theorem step_more_zero {lower upper code b : ℕ} (h : lower ≤ b ∧ b ≤ upper) :
    step (.more 0 lower upper code) b = ([Char.ofNat (code * 64 + (b - 0x80))], .ready) := by
  simp [step, h]

theorem step_more_succ {left lower upper code b : ℕ} (h : lower ≤ b ∧ b ≤ upper) :
    step (.more (left + 1) lower upper code) b =
      ([], .more left 0x80 0xBF (code * 64 + (b - 0x80))) := by
  simp [step, h]

theorem toNat_ofNat {n : ℕ} (h : n < 256) : (UInt8.ofNat n).toNat = n :=
  UInt8.toNat_ofNat_of_lt' h

theorem start_one {b : ℕ} (h : b < 0x80) : start b = ([Char.ofNat b], .ready) := if_pos h

theorem start_two {b : ℕ} (h : 0xC2 ≤ b ∧ b ≤ 0xDF) :
    start b = ([], .more 0 0x80 0xBF (b - 0xC0)) := by
  unfold start
  rw [if_neg (by omega), if_pos h]

theorem start_three {b : ℕ} (h : 0xE0 ≤ b ∧ b ≤ 0xEF) : start b = ([], .more 1
    (if b = 0xE0 then 0xA0 else 0x80) (if b = 0xED then 0x9F else 0xBF) (b - 0xE0)) := by
  unfold start
  rw [if_neg (by omega), if_neg (by omega), if_pos h]

theorem start_four {b : ℕ} (h : 0xF0 ≤ b ∧ b ≤ 0xF4) : start b = ([], .more 2
    (if b = 0xF0 then 0x90 else 0x80) (if b = 0xF4 then 0x8F else 0xBF) (b - 0xF0)) := by
  unfold start
  rw [if_neg (by omega), if_neg (by omega), if_neg (by omega), if_pos h]

theorem decodeFrom_utf8EncodeChar (c : Char) (bytes : List UInt8) :
    decodeFrom .ready (String.utf8EncodeChar c ++ bytes) = c :: decodeFrom .ready bytes := by
  have hvalid : c.val.toNat < 0xD800 ∨ 0xDFFF < c.val.toNat ∧ c.val.toNat < 0x110000 := c.valid
  have hc : Char.ofNat c.val.toNat = c := Char.ofNat_toNat c
  unfold String.utf8EncodeChar
  generalize c.val.toNat = v at hvalid hc ⊢
  simp only []
  split_ifs with h1 h2 h3 <;>
    simp only [List.cons_append, List.nil_append, decodeFrom_cons, step.eq_1]
  · rw [toNat_ofNat (by omega), start_one (by omega), hc]
    rfl
  · have hcode : (v / 64 % 32 + 0xC0 - 0xC0) * 64 + (v % 64 + 0x80 - 0x80) = v := by omega
    rw [toNat_ofNat (by omega), toNat_ofNat (by omega), start_two (by omega),
      step_more_zero (by omega), hcode, hc]
    rfl
  · have hcode : ((v / 4096 % 16 + 0xE0 - 0xE0) * 64 + (v / 64 % 64 + 0x80 - 0x80)) * 64 +
        (v % 64 + 0x80 - 0x80) = v := by omega
    rw [toNat_ofNat (by omega), toNat_ofNat (by omega), toNat_ofNat (by omega),
      start_three (by omega), step_more_succ (by split_ifs <;> omega),
      step_more_zero (by omega), hcode, hc]
    rfl
  · have hcode : (((v / 262144 % 8 + 0xF0 - 0xF0) * 64 + (v / 4096 % 64 + 0x80 - 0x80)) * 64 +
        (v / 64 % 64 + 0x80 - 0x80)) * 64 + (v % 64 + 0x80 - 0x80) = v := by omega
    rw [toNat_ofNat (by omega), toNat_ofNat (by omega), toNat_ofNat (by omega),
      toNat_ofNat (by omega), start_four (by omega), step_more_succ (by split_ifs <;> omega),
      step_more_succ (by omega), step_more_zero (by omega), hcode, hc]
    rfl

/-- What is encoded is decoded. -/
theorem decode_encode (s : List Char) : decode (encode s) = s := by
  unfold decode
  induction s with
  | nil => rfl
  | cons c s ih => rw [encode_cons, decodeFrom_utf8EncodeChar, ih]

theorem decode?_eq_some {bytes : List UInt8} {s : List Char} :
    decode? bytes = some s ↔ bytes = encode s := by
  unfold decode?
  constructor
  · intro h
    split_ifs at h with heq
    cases h
    exact heq.symm
  · rintro rfl
    rw [decode_encode, if_pos rfl]

/-- Only the first byte of a character is not inside one. -/
theorem utf8EncodeChar_cases (c : Char) : ∃ b bytes, String.utf8EncodeChar c = b :: bytes ∧
    ¬ IsContinuation b ∧ ∀ x ∈ bytes, IsContinuation x := by
  have hvalid : c.val.toNat < 0xD800 ∨ 0xDFFF < c.val.toNat ∧ c.val.toNat < 0x110000 := c.valid
  unfold String.utf8EncodeChar
  generalize c.val.toNat = v at hvalid ⊢
  simp only []
  split_ifs with h1 h2 h3
  · refine ⟨_, _, rfl, ?_, by simp⟩
    rw [IsContinuation, toNat_ofNat (by omega)]
    omega
  all_goals
    refine ⟨_, _, rfl, ?_, ?_⟩
    · rw [IsContinuation, toNat_ofNat (by omega)]
      omega
    · simp only [List.mem_cons, List.not_mem_nil, or_false, forall_eq_or_imp, forall_eq,
        IsContinuation]
      repeat' rw [toNat_ofNat (by omega)]
      omega

/-! ## The order -/

theorem ofNat_cons_lt {a b : ℕ} {s t : List UInt8} (hle : a ≤ b) (hb : b < 256)
    (h : a = b → s < t) : UInt8.ofNat a :: s < UInt8.ofNat b :: t := by
  rw [List.cons_lt_cons_iff, UInt8.lt_iff_toNat_lt, toNat_ofNat (by omega), toNat_ofNat hb]
  rcases hle.lt_or_eq with hlt | rfl
  · exact .inl hlt
  · exact .inr ⟨rfl, h rfl⟩

theorem utf8EncodeChar_append_lt {c d : Char} (h : c < d) (s t : List UInt8) :
    String.utf8EncodeChar c ++ s < String.utf8EncodeChar d ++ t := by
  have hlt : c.val.toNat < d.val.toNat := h
  have hvalid : d.val.toNat < 0xD800 ∨ 0xDFFF < d.val.toNat ∧ d.val.toNat < 0x110000 := d.valid
  unfold String.utf8EncodeChar
  generalize c.val.toNat = v at hlt ⊢
  generalize d.val.toNat = w at hlt hvalid ⊢
  simp only []
  -- the first bytes that differ are those of the greater number, or of the one with more bytes
  split_ifs <;> simp only [List.cons_append, List.nil_append] <;>
    repeat' refine ofNat_cons_lt (by omega) (by omega) fun _ => ?_
  all_goals
    exfalso
    omega

/-- Texts are in the order of their bytes. -/
theorem encode_lt_encode {s t : List Char} (h : s < t) : encode s < encode t := by
  induction s generalizing t with
  | nil =>
    cases t with
    | nil => exact absurd h (List.lt_irrefl _)
    | cons d t =>
      obtain ⟨b, bytes, hd, -⟩ := utf8EncodeChar_cases d
      rw [encode_cons, hd]
      exact List.nil_lt_cons _ _
  | cons c s ih =>
    cases t with
    | nil => exact absurd h (List.not_lt_nil _)
    | cons d t =>
      rw [encode_cons, encode_cons]
      rcases List.cons_lt_cons_iff.1 h with hlt | ⟨rfl, hlt⟩
      · exact utf8EncodeChar_append_lt hlt _ _
      · exact List.append_left_lt (ih hlt)

theorem encode_lt_encode_iff {s t : List Char} : encode s < encode t ↔ s < t := by
  refine ⟨fun h => ?_, encode_lt_encode⟩
  rcases lt_trichotomy s t with hlt | rfl | hlt
  · exact hlt
  · exact absurd h (List.lt_irrefl _)
  · exact absurd h (List.lt_asymm (encode_lt_encode hlt))

theorem encode_injective : Function.Injective encode := fun s t h => by
  rw [← decode_encode s, h, decode_encode]

/-! ## What the machine gives -/

/-- The states that are reached: the next byte is inside a character, and the character will not
be an ASCII one. -/
def State.Good : State → Prop
  | .ready => True
  | .more left lower upper code =>
    0x80 ≤ lower ∧ upper < 0xC0 ∧ 0x80 ≤ (code * 64 + (lower - 0x80)) * 64 ^ left

theorem good_ready : State.ready.Good := trivial

theorem good_start (b : ℕ) : (start b).2.Good := by
  unfold start
  split_ifs <;> simp only [State.Good] <;> omega

theorem good_step {s : State} (h : s.Good) (b : ℕ) : (step s b).2.Good := by
  cases s with
  | ready => exact good_start b
  | more left lower upper code =>
    simp only [step]
    split_ifs with hb
    · obtain ⟨hl, hu, hcode⟩ := h
      cases left with
      | zero => trivial
      | succ left =>
        refine ⟨le_rfl, by omega, hcode.trans ?_⟩
        rw [pow_succ' 64 left, ← mul_assoc]
        refine Nat.mul_le_mul_right _ ?_
        omega
    · exact good_start b

theorem replacement_ne : replacement ≠ '\n' := by decide

theorem ofNat_eq_newline {n : ℕ} : Char.ofNat n = '\n' ↔ n = 10 := by
  constructor
  · intro h
    have htoNat := congrArg Char.toNat h
    rw [Char.toNat_ofNat] at htoNat
    split_ifs at htoNat
    · exact htoNat
    · exact absurd htoNat (by decide)
  · rintro rfl
    rfl

theorem step_newline {s : State} (h : s.Good) :
    ∃ t, (step s 10) = (t ++ ['\n'], .ready) ∧ '\n' ∉ t := by
  cases s with
  | ready => exact ⟨[], rfl, by simp⟩
  | more left lower upper code =>
    obtain ⟨hl, -, -⟩ := h
    refine ⟨[replacement], ?_, by simp [replacement_ne.symm]⟩
    rw [step, if_neg (by omega)]
    rfl

theorem newline_not_mem_start {b : ℕ} (hb : b ≠ 10) : '\n' ∉ (start b).1 := by
  unfold start
  split_ifs <;> simp [replacement_ne.symm, eq_comm, ofNat_eq_newline, hb]

theorem newline_not_mem_step {s : State} (h : s.Good) {b : ℕ} (hb : b ≠ 10) :
    '\n' ∉ (step s b).1 := by
  cases s with
  | ready => exact newline_not_mem_start hb
  | more left lower upper code =>
    simp only [step]
    split_ifs with hin
    · obtain ⟨hl, hu, hcode⟩ := h
      cases left with
      | zero =>
        rw [List.mem_singleton, eq_comm, ofNat_eq_newline]
        omega
      | succ left => simp
    · simp only [List.mem_cons, not_or]
      exact ⟨replacement_ne.symm, newline_not_mem_start hb⟩

/-- Line feeds are decoded as themselves, and nothing else is. -/
theorem count_newline {s : State} (h : s.Good) (bytes : List UInt8) :
    (decodeFrom s bytes).count '\n' = bytes.count 10 := by
  induction bytes generalizing s with
  | nil =>
    cases s with
    | ready => rfl
    | more left lower upper code => simp [decodeFrom, replacement_ne]
  | cons b bytes ih =>
    rw [decodeFrom_cons, List.count_append, ih (good_step h _), List.count_cons]
    by_cases hb : b = 10
    · subst hb
      obtain ⟨t, ht, hnot⟩ := step_newline h
      have h10 : (10 : UInt8).toNat = 10 := rfl
      rw [h10, ht, List.count_append, List.count_eq_zero_of_not_mem hnot]
      simp
      omega
    · have hne : b.toNat ≠ 10 := fun hc => hb (UInt8.toNat_inj.1 hc)
      rw [List.count_eq_zero_of_not_mem (newline_not_mem_step h hne)]
      simp [hb]

theorem getLast?_decodeFrom {s : State} (h : s.Good) {bytes : List UInt8}
    (hlast : bytes.getLast? = some 10) : (decodeFrom s bytes).getLast? = some '\n' := by
  induction bytes generalizing s with
  | nil => simp at hlast
  | cons b bytes ih =>
    rw [decodeFrom_cons]
    rcases bytes with _ | ⟨b', bytes⟩
    · simp only [List.getLast?_singleton, Option.some.injEq] at hlast
      subst hlast
      obtain ⟨t, ht, -⟩ := step_newline h
      have h10 : (10 : UInt8).toNat = 10 := rfl
      rw [h10, ht]
      simp
    · rw [List.getLast?_cons_cons] at hlast
      have hend := ih (good_step h b.toNat) hlast
      rw [List.getLast?_append, hend]
      rfl

/-! ## How many characters there are -/

/-- The bytes where a character or an error starts. -/
def starts (bytes : List UInt8) : ℕ := bytes.countP fun b => ¬ IsContinuation b

/-- Whether a character is not complete. -/
def State.owed : State → ℕ
  | .ready => 0
  | .more _ _ _ _ => 1

/-- A byte where a character starts ends it or leaves it owed. -/
theorem owed_start (b : ℕ) : 1 ≤ (start b).1.length + (start b).2.owed := by
  unfold start
  split_ifs <;> simp [State.owed]

theorem owed_step {s : State} (h : s.Good) (b : UInt8) :
    (if IsContinuation b then 0 else 1) + s.owed ≤
      (step s b.toNat).1.length + (step s b.toNat).2.owed := by
  have hstart := owed_start b.toNat
  cases s with
  | ready =>
    simp only [step, State.owed] at hstart ⊢
    split_ifs <;> omega
  | more left lower upper code =>
    obtain ⟨hl, hu, -⟩ := h
    simp only [step]
    by_cases hin : lower ≤ b.toNat ∧ b.toNat ≤ upper
    · have hc : IsContinuation b := by
        rw [IsContinuation]
        omega
      rw [if_pos hin, if_pos hc]
      cases left <;> simp [State.owed]
    · rw [if_neg hin]
      simp only [State.owed, List.length_cons] at hstart ⊢
      split_ifs <;> omega

theorem starts_le_length {s : State} (h : s.Good) (bytes : List UInt8) :
    starts bytes + s.owed ≤ (decodeFrom s bytes).length := by
  induction bytes generalizing s with
  | nil => cases s <;> simp [starts, State.owed, decodeFrom]
  | cons b bytes ih =>
    have hrest := ih (good_step h b.toNat)
    have hb := owed_step h b
    rw [decodeFrom_cons, List.length_append]
    simp only [starts, List.countP_cons] at hrest ⊢
    split_ifs at hb ⊢ <;> simp_all <;> omega

theorem starts_append (bytes bytes' : List UInt8) :
    starts (bytes ++ bytes') = starts bytes + starts bytes' := List.countP_append

theorem starts_encode (s : List Char) : starts (encode s) = s.length := by
  induction s with
  | nil => rfl
  | cons c s ih =>
    obtain ⟨b, bytes, hc, hb, hbytes⟩ := utf8EncodeChar_cases c
    have hzero : starts bytes = 0 := by
      rw [starts, List.countP_eq_zero]
      intro x hx
      simp [hbytes x hx]
    have hcons : starts (b :: bytes) = starts bytes + 1 := by simp [starts, hb]
    rw [encode_cons, starts_append, ih, hc, hcons, hzero, List.length_cons]
    omega

/-! ## Pieces -/

/-- No piece starts inside a character. -/
def Aligned (pieces : List (List UInt8)) : Prop :=
  ∀ piece ∈ pieces, ∀ b, piece.head? = some b → ¬ IsContinuation b

/-- Where a character starts, what is encoded is cut into what two texts encode. -/
theorem exists_of_append_eq_encode {s : List Char} {p q : List UInt8} (h : p ++ q = encode s)
    (hq : ∀ b, q.head? = some b → ¬ IsContinuation b) :
    ∃ s₁ s₂, s = s₁ ++ s₂ ∧ p = encode s₁ ∧ q = encode s₂ := by
  induction s generalizing p with
  | nil =>
    obtain ⟨rfl, rfl⟩ := List.append_eq_nil_iff.1 h
    exact ⟨[], [], rfl, rfl, rfl⟩
  | cons c s ih =>
    rcases p with _ | ⟨b', p⟩
    · exact ⟨[], c :: s, rfl, rfl, h⟩
    · obtain ⟨b, bytes, hc, -, hbytes⟩ := utf8EncodeChar_cases c
      rw [encode_cons, hc, List.cons_append, List.cons_append, List.cons.injEq] at h
      obtain ⟨rfl, h⟩ := h
      rcases List.append_eq_append_iff.1 h with ⟨t, ht, hqt⟩ | ⟨t, ht, hst⟩
      · rcases t with _ | ⟨x, t⟩
        · refine ⟨[c], s, rfl, ?_, hqt⟩
          rw [List.append_nil] at ht
          simp [hc, ht]
        · refine absurd (hbytes x ?_) (hq x ?_)
          · simp [ht]
          · simp [hqt]
      · obtain ⟨s₁, s₂, rfl, hp, hq'⟩ := ih hst.symm
        refine ⟨c :: s₁, s₂, rfl, ?_, hq'⟩
        rw [encode_cons, hc, ht, hp]
        rfl

theorem flatMap_decode_of_aligned {pieces : List (List UInt8)} {s : List Char}
    (h : pieces.flatten = encode s) (ha : Aligned pieces) : pieces.flatMap decode = s := by
  induction pieces generalizing s with
  | nil =>
    cases s with
    | nil => rfl
    | cons c s =>
      obtain ⟨b, bytes, hc, -⟩ := utf8EncodeChar_cases c
      simp [hc] at h
  | cons piece pieces ih =>
    rw [List.flatten_cons] at h
    obtain ⟨s₁, s₂, rfl, hp, hq⟩ := exists_of_append_eq_encode h fun b hb => by
      rw [List.head?_flatten] at hb
      obtain ⟨piece', hmem, hb⟩ := List.exists_of_findSome?_eq_some hb
      exact ha piece' (List.mem_cons_of_mem _ hmem) b hb
    rw [List.flatMap_cons, ih hq fun piece' hmem => ha piece' (List.mem_cons_of_mem _ hmem), hp,
      decode_encode]

theorem starts_lt_length {piece : List UInt8} {b : UInt8} (hb : piece.head? = some b)
    (hc : IsContinuation b) : starts piece < (decode piece).length := by
  obtain ⟨bytes, rfl⟩ := List.head?_eq_some_iff.1 hb
  have hle := starts_le_length good_ready bytes
  have hb : start b.toNat = ([replacement], .ready) := by
    obtain ⟨h1, h2⟩ := hc
    unfold start
    rw [if_neg (by omega), if_neg (by omega), if_neg (by omega), if_neg (by omega)]
  rw [decode, decodeFrom_cons, step.eq_1, hb]
  have hstarts : starts (b :: bytes) = starts bytes := by simp [starts, hc]
  rw [hstarts, List.length_append, List.length_singleton]
  simp only [State.owed] at hle ⊢
  omega

theorem length_le_flatMap_decode (pieces : List (List UInt8)) :
    starts pieces.flatten ≤ (pieces.flatMap decode).length := by
  induction pieces with
  | nil => simp [starts]
  | cons piece pieces ih =>
    have hpiece : starts piece ≤ (decode piece).length := starts_le_length good_ready piece
    rw [List.flatten_cons, starts_append, List.flatMap_cons, List.length_append]
    omega

/-- A piece that starts inside a character gives more characters than were encoded. -/
theorem length_lt_of_not_aligned {pieces : List (List UInt8)} {s : List Char}
    (h : pieces.flatten = encode s) (ha : ¬ Aligned pieces) :
    s.length < (pieces.flatMap decode).length := by
  rw [← starts_encode, ← h]
  simp only [Aligned, not_forall, not_not] at ha
  obtain ⟨piece, hmem, b, hb, hc⟩ := ha
  obtain ⟨l, r, rfl⟩ := List.append_of_mem hmem
  have hl := length_le_flatMap_decode l
  have hr := length_le_flatMap_decode r
  have hpiece := starts_lt_length hb hc
  simp only [List.flatten_append, List.flatten_cons, starts_append, List.flatMap_append,
    List.flatMap_cons, List.length_append]
  omega

/-- Pieces are decoded to the text that was encoded exactly if none starts inside a character. -/
theorem flatMap_decode_eq_iff {pieces : List (List UInt8)} {s : List Char}
    (h : pieces.flatten = encode s) : pieces.flatMap decode = s ↔ Aligned pieces := by
  constructor
  · intro heq
    by_contra ha
    have hlt := length_lt_of_not_aligned h ha
    rw [heq] at hlt
    exact lt_irrefl _ hlt
  · exact flatMap_decode_of_aligned h

theorem count_flatMap_decode (pieces : List (List UInt8)) :
    (pieces.flatMap decode).count '\n' = pieces.flatten.count 10 := by
  induction pieces with
  | nil => rfl
  | cons piece pieces ih =>
    rw [List.flatMap_cons, List.count_append, ih, List.flatten_cons, List.count_append, decode,
      count_newline good_ready]

theorem getLast?_flatMap_decode {pieces : List (List UInt8)}
    (h : pieces.flatten.getLast? = some 10) :
    (pieces.flatMap decode).getLast? = some '\n' := by
  induction pieces using List.reverseRecOn with
  | nil => simp at h
  | append_singleton pieces piece ih =>
    rw [List.flatMap_append, List.getLast?_append]
    rw [List.flatten_append, List.getLast?_append] at h
    simp only [List.flatten_cons, List.flatten_nil, List.append_nil, List.flatMap_cons,
      List.flatMap_nil] at h ⊢
    rcases hp : piece.getLast? with _ | b
    · rw [List.getLast?_eq_none_iff] at hp
      subst hp
      simpa using ih (by simpa using h)
    · rw [hp] at h
      simp only [Option.some_or, Option.some.injEq] at h
      subst h
      rw [decode, getLast?_decodeFrom good_ready hp]
      rfl

end Utf8
