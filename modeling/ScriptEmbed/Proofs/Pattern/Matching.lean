import Mathlib
import ScriptEmbed.Pattern.Basic

/-!
# What it means that a pattern matches

A match leads from one place of a text to another, along the constructors of the pattern.  Matching
works on sets of places instead, kept as the bits of a number, and takes each set to all places that
matches lead to.  A repetition without upper bound is followed until nothing is new, which is the
case after as many rounds as there are places.

* `Pattern.Leads` — a match leads from a place to a place;
* `Images` — a function on sets of places follows a relation between places;
* `images_saturate`, `saturate_closed` — repeated union with the image, up to a bound or for good;
* `Pattern.images_image` — **the image of a set of places is where matches from it end**;
* `Pattern.isMatch_iff` — a pattern matches in a text when some match leads from a place of it.
-/

namespace ScriptEmbed

/-- So many steps of a relation between places. -/
inductive Rounds (R : Nat → Nat → Prop) : Nat → Nat → Nat → Prop
  | zero {i : Nat} : Rounds R 0 i i
  | succ {n i j k : Nat} : R i j → Rounds R n j k → Rounds R (n + 1) i k

namespace Pattern

/-- The character before a place. -/
def before? (t : Text) : Nat → Option Char
  | 0 => none
  | i + 1 => t[i]?

/-- A match of the pattern in the text leads from one place to another. -/
def Leads (t : Text) : Pattern Atom → Nat → Nat → Prop
  | empty, i, j => j = i
  | atom (.set s), i, j => j = i + 1 ∧ ∃ c, t[i]? = some c ∧ s.contains c = true
  | atom (.place a), i, j => j = i ∧ i ≤ t.length ∧ a.holds (before? t i) t[i]? = true
  | seq p q, i, k => ∃ j, Leads t p i j ∧ Leads t q j k
  | alt p q, i, j => Leads t p i j ∨ Leads t q i j
  | loop p least most, i, j =>
    ∃ n, least ≤ n ∧ (∀ m ∈ most, n ≤ max least m) ∧ Rounds (Leads t p) n i j

end Pattern

variable {R Q : Nat → Nat → Prop} {f g : Nat → Nat} {count n m i j k places : Nat}

/-! ### Rounds -/

theorem Rounds.add (h : Rounds R n i j) (h' : Rounds R m j k) : Rounds R (n + m) i k := by
  induction h with
  | zero =>
    rw [Nat.zero_add]
    exact h'
  | succ hij _ ih =>
    rw [Nat.add_right_comm]
    exact .succ hij (ih h')

theorem Rounds.exists_of_add (h : Rounds R (n + m) i k) :
    ∃ j, Rounds R n i j ∧ Rounds R m j k := by
  induction n generalizing i with
  | zero =>
    rw [Nat.zero_add] at h
    exact ⟨i, .zero, h⟩
  | succ n ih =>
    rw [Nat.add_right_comm] at h
    cases h with
    | succ hij hrest =>
      obtain ⟨l, hl, hlk⟩ := ih hrest
      exact ⟨l, .succ hij hl, hlk⟩

theorem rounds_one_iff : Rounds R 1 i j ↔ R i j := by
  constructor
  · intro h
    cases h with
    | succ hij hrest =>
      cases hrest
      exact hij
  · intro h
    exact .succ h .zero

/-- A property that a step keeps is kept by any number of steps. -/
theorem Rounds.keeps {P : Nat → Prop} (hstep : ∀ i j, R i j → P i → P j) (h : Rounds R n i j)
    (hi : P i) : P j := by
  induction h with
  | zero => exact hi
  | succ hij _ ih => exact ih (hstep _ _ hij hi)

/-! ### Sets of places -/

theorem lt_of_testBit (h : places < 2 ^ count) (hi : places.testBit i = true) : i < count := by
  by_contra hge
  have hlt : places < 2 ^ i := lt_of_lt_of_le h (Nat.pow_le_pow_right (by omega) (by omega))
  rw [Nat.testBit_lt_two_pow hlt] at hi
  cases hi

theorem lt_two_pow_of_testBit (h : ∀ j, places.testBit j = true → j < count) :
    places < 2 ^ count := by
  refine Nat.lt_pow_two_of_testBit places fun j hj => ?_
  by_contra htrue
  have hlt := h j (by simpa using htrue)
  omega

/-- On the places of a text, the function takes a set to all places that the relation leads to. -/
structure Images (count : Nat) (f : Nat → Nat) (R : Nat → Nat → Prop) : Prop where
  stays : ∀ {i j}, R i j → i < count → j < count
  testBit : ∀ {places}, places < 2 ^ count → ∀ j,
    (f places).testBit j = true ↔ ∃ i, places.testBit i = true ∧ R i j

theorem Images.lt (h : Images count f R) (hp : places < 2 ^ count) : f places < 2 ^ count := by
  refine lt_two_pow_of_testBit fun j hj => ?_
  obtain ⟨i, hi, hij⟩ := (h.testBit hp j).1 hj
  exact h.stays hij (lt_of_testBit hp hi)

theorem Images.congr (h : Images count f R) (hRQ : ∀ i j, R i j ↔ Q i j) : Images count f Q := by
  have heq : R = Q := by
    funext i j
    exact propext (hRQ i j)
  rw [← heq]
  exact h

theorem images_seq (hf : Images count f R) (hg : Images count g Q) :
    Images count (fun places => g (f places)) fun i k => ∃ j, R i j ∧ Q j k where
  stays := by
    rintro i k ⟨j, hij, hjk⟩ hi
    exact hg.stays hjk (hf.stays hij hi)
  testBit := by
    intro places hp k
    rw [hg.testBit (hf.lt hp) k]
    constructor
    · rintro ⟨j, hj, hjk⟩
      obtain ⟨i, hi, hij⟩ := (hf.testBit hp j).1 hj
      exact ⟨i, hi, j, hij, hjk⟩
    · rintro ⟨i, hi, j, hij, hjk⟩
      exact ⟨j, (hf.testBit hp j).2 ⟨i, hi, hij⟩, hjk⟩

theorem images_alt (hf : Images count f R) (hg : Images count g Q) :
    Images count (fun places => f places ||| g places) fun i j => R i j ∨ Q i j where
  stays := by
    rintro i j (hij | hij) hi
    · exact hf.stays hij hi
    · exact hg.stays hij hi
  testBit := by
    intro places hp j
    rw [Nat.testBit_or, Bool.or_eq_true, hf.testBit hp j, hg.testBit hp j]
    constructor
    · rintro (⟨i, hi, hij⟩ | ⟨i, hi, hij⟩)
      · exact ⟨i, hi, Or.inl hij⟩
      · exact ⟨i, hi, Or.inr hij⟩
    · rintro ⟨i, hi, hij | hij⟩
      · exact Or.inl ⟨i, hi, hij⟩
      · exact Or.inr ⟨i, hi, hij⟩

theorem Images.stays_rounds (h : Images count f R) (hr : Rounds R n i j) (hi : i < count) :
    j < count :=
  hr.keeps (P := (· < count)) (fun _ _ => h.stays) hi

/-- So many images are so many steps. -/
theorem images_repeat (h : Images count f R) (n : Nat) :
    Images count (Nat.repeat f n) (Rounds R n) where
  stays := h.stays_rounds
  testBit := by
    induction n with
    | zero =>
      intro places _ j
      constructor
      · intro hj
        exact ⟨j, hj, .zero⟩
      · rintro ⟨i, hi, hij⟩
        cases hij
        exact hi
    | succ n ih =>
      intro places hp k
      have himages : Images count (Nat.repeat f n) (Rounds R n) := ⟨h.stays_rounds, ih⟩
      show (f (Nat.repeat f n places)).testBit k = true ↔ _
      rw [h.testBit (himages.lt hp) k]
      constructor
      · rintro ⟨j, hj, hjk⟩
        obtain ⟨i, hi, hij⟩ := (ih hp j).1 hj
        exact ⟨i, hi, hij.add (rounds_one_iff.2 hjk)⟩
      · rintro ⟨i, hi, hik⟩
        obtain ⟨j, hij, hjk⟩ := hik.exists_of_add
        exact ⟨j, (ih hp j).2 ⟨i, hi, hij⟩, rounds_one_iff.1 hjk⟩

/-! ### Saturation -/

/-- The set with its image: what is reached in at most one step. -/
theorem Images.testBit_or (h : Images count f R) (hp : places < 2 ^ count) (j : Nat) :
    (places ||| f places).testBit j = true ↔
      places.testBit j = true ∨ ∃ i, places.testBit i = true ∧ R i j := by
  rw [Nat.testBit_or, Bool.or_eq_true, h.testBit hp j]

theorem Images.or_lt (h : Images count f R) (hp : places < 2 ^ count) :
    places ||| f places < 2 ^ count :=
  Nat.or_lt_two_pow hp (h.lt hp)

/-- Where the image adds nothing, no step leads out of the set. -/
theorem Images.closed_of_eq (h : Images count f R) (hp : places < 2 ^ count)
    (heq : places ||| f places = places) (hij : R i j) (hi : places.testBit i = true) :
    places.testBit j = true := by
  rw [← heq, h.testBit_or hp]
  exact Or.inr ⟨i, hi, hij⟩

/-- Saturation up to a bound reaches what so many steps reach. -/
theorem images_saturate (h : Images count f R) (n : Nat) :
    Images count (saturate f n) fun i j => ∃ k ≤ n, Rounds R k i j where
  stays := by
    rintro i j ⟨k, -, hij⟩ hi
    exact h.stays_rounds hij hi
  testBit := by
    induction n with
    | zero =>
      intro places _ j
      constructor
      · intro hj
        exact ⟨j, hj, 0, Nat.le_refl 0, .zero⟩
      · rintro ⟨i, hi, k, hk, hij⟩
        obtain rfl : k = 0 := by omega
        cases hij
        exact hi
    | succ n ih =>
      intro places hp j
      rw [saturate]
      show (if places ||| f places = places then places
        else saturate f n (places ||| f places)).testBit j = true ↔ _
      split_ifs with heq
      · constructor
        · intro hj
          exact ⟨j, hj, 0, Nat.zero_le _, .zero⟩
        · rintro ⟨i, hi, k, -, hij⟩
          exact hij.keeps (P := fun j => places.testBit j = true)
            (fun _ _ => h.closed_of_eq hp heq) hi
      · rw [ih (h.or_lt hp)]
        constructor
        · rintro ⟨i, hi, k, hk, hij⟩
          obtain hi | ⟨l, hl, hli⟩ := (h.testBit_or hp i).1 hi
          · exact ⟨i, hi, k, by omega, hij⟩
          · exact ⟨l, hl, k + 1, by omega, .succ hli hij⟩
        · rintro ⟨i, hi, k, hk, hij⟩
          cases hij with
          | zero => exact ⟨_, (h.testBit_or hp _).2 (Or.inl hi), 0, Nat.zero_le _, .zero⟩
          | @succ k _ l _ hil hlj =>
            exact ⟨l, (h.testBit_or hp l).2 (Or.inr ⟨i, hi, hil⟩), k, by omega, hlj⟩

/-- The number of places in a set. -/
def placeCount (count places : Nat) : Nat :=
  ((Finset.range count).filter fun i => places.testBit i = true).card

/-- A set with all places in it has each of them. -/
theorem testBit_of_placeCount (h : count ≤ placeCount count places) (hi : i < count) :
    places.testBit i = true := by
  have heq : (Finset.range count).filter (fun i => places.testBit i = true) = Finset.range count := by
    refine Finset.eq_of_subset_of_card_le (Finset.filter_subset _ _) ?_
    rw [Finset.card_range]
    exact h
  have hmem : i ∈ (Finset.range count).filter fun i => places.testBit i = true := by
    rw [heq]
    exact Finset.mem_range.2 hi
  exact (Finset.mem_filter.1 hmem).2

/-- A set that grows gets a new place. -/
theorem Images.placeCount_lt (h : Images count f R) (hp : places < 2 ^ count)
    (hne : places ||| f places ≠ places) :
    placeCount count places < placeCount count (places ||| f places) := by
  have hnew : ∃ j, (places ||| f places).testBit j = true ∧ places.testBit j = false := by
    by_contra hnone
    refine hne (Nat.eq_of_testBit_eq fun j => ?_)
    rw [Nat.testBit_or]
    cases hj : places.testBit j with
    | true => rfl
    | false =>
      by_contra hf
      refine hnone ⟨j, ?_, hj⟩
      rw [Nat.testBit_or, hj]
      simpa using hf
  obtain ⟨j, hj, hnot⟩ := hnew
  refine Finset.card_lt_card (Finset.ssubset_iff_of_subset ?_ |>.2 ⟨j, ?_, ?_⟩)
  · intro i hi
    obtain ⟨hrange, hbit⟩ := Finset.mem_filter.1 hi
    exact Finset.mem_filter.2 ⟨hrange, (h.testBit_or hp i).2 (Or.inl hbit)⟩
  · exact Finset.mem_filter.2 ⟨Finset.mem_range.2 (lt_of_testBit (h.or_lt hp) hj), hj⟩
  · intro hmem
    rw [(Finset.mem_filter.1 hmem).2] at hnot
    cases hnot

/-- After as many rounds as there are places outside the set, no step leads out of it. -/
theorem saturate_closed (h : Images count f R) (n : Nat) (hp : places < 2 ^ count)
    (hn : count ≤ n + placeCount count places) (hij : R i j)
    (hi : (saturate f n places).testBit i = true) : (saturate f n places).testBit j = true := by
  induction n generalizing places with
  | zero =>
    have hlt : i < count := lt_of_testBit hp hi
    show places.testBit j = true
    exact testBit_of_placeCount (by omega) (h.stays hij hlt)
  | succ n ih =>
    have hstep : saturate f (n + 1) places =
        if places ||| f places = places then places else saturate f n (places ||| f places) := rfl
    rw [hstep] at hi ⊢
    split_ifs at hi ⊢ with heq
    · exact h.closed_of_eq hp heq hij hi
    · have hgrow := h.placeCount_lt hp heq
      exact ih (h.or_lt hp) (by omega) hi

/-- Saturation for as many rounds as there are places reaches all that any steps reach. -/
theorem images_saturate_count (h : Images count f R) :
    Images count (saturate f count) fun i j => ∃ k, Rounds R k i j where
  stays := by
    rintro i j ⟨k, hij⟩ hi
    exact h.stays_rounds hij hi
  testBit := by
    intro places hp j
    constructor
    · intro hj
      obtain ⟨i, hi, k, -, hij⟩ := ((images_saturate h count).testBit hp j).1 hj
      exact ⟨i, hi, k, hij⟩
    · rintro ⟨i, hi, k, hij⟩
      have hstart : (saturate f count places).testBit i = true :=
        ((images_saturate h count).testBit hp i).2 ⟨i, hi, 0, Nat.zero_le _, .zero⟩
      exact hij.keeps (P := fun j => (saturate f count places).testBit j = true)
        (fun _ _ => saturate_closed h count hp (by omega)) hstart

/-! ### Atoms -/

/-- The places whose neighbours satisfy a condition. -/
theorem testBit_placesWhere (holds : Option Char → Option Char → Bool) (before : Option Char)
    (t : Text) (i : Nat) :
    (placesWhere holds before t).testBit i = true ↔
      i ≤ t.length ∧ holds (if i = 0 then before else Pattern.before? t i) t[i]? = true := by
  induction t generalizing before i with
  | nil =>
    rw [placesWhere, Nat.testBit_bool_toNat, Bool.and_eq_true, decide_eq_true_eq]
    constructor
    · rintro ⟨rfl, h⟩
      exact ⟨Nat.le_refl 0, h⟩
    · rintro ⟨hi, h⟩
      obtain rfl : i = 0 := by simpa using hi
      exact ⟨rfl, h⟩
  | cons c t ih =>
    rw [placesWhere, ← Nat.bit_val]
    cases i with
    | zero =>
      rw [Nat.testBit_bit_zero]
      exact ⟨fun h => ⟨Nat.zero_le _, h⟩, fun h => h.2⟩
    | succ i =>
      have hbefore : (if i = 0 then some c else Pattern.before? t i) =
          Pattern.before? (c :: t) (i + 1) := by
        cases i with
        | zero => rfl
        | succ i => rfl
      rw [Nat.testBit_bit_succ, ih, hbefore, List.length_cons, if_neg (Nat.succ_ne_zero i)]
      show _ ∧ holds _ t[i]? = true ↔ _ ∧ holds _ t[i]? = true
      rw [Nat.succ_le_succ_iff]

variable {t : Text}

/-- An atom goes over one character, or stays at a place. -/
theorem images_atom (t : Text) (a : Atom) :
    Images (t.length + 1) (Step.ofAtom t a).image (Pattern.Leads t (.atom a)) where
  stays := by
    cases a with
    | set s =>
      rintro i j ⟨rfl, c, hc, -⟩ -
      have hlt := (List.getElem?_eq_some_iff.1 hc).1
      omega
    | place a =>
      rintro i j ⟨rfl, -, -⟩ hi
      exact hi
  testBit := by
    intro places _ j
    cases a with
    | set s =>
      have hset : ∀ i, (placesWhere (fun _ after => after.any s.contains) none t).testBit i = true ↔
          ∃ c, t[i]? = some c ∧ s.contains c = true := by
        intro i
        rw [testBit_placesWhere]
        constructor
        · rintro ⟨-, h⟩
          exact (Option.any_eq_true _ _).1 h
        · rintro ⟨c, hc, hs⟩
          have hlt := (List.getElem?_eq_some_iff.1 hc).1
          exact ⟨by omega, (Option.any_eq_true _ _).2 ⟨c, hc, hs⟩⟩
      have hbit : (Step.ofAtom t (.set s)).image places = Nat.bit false
          (places &&& placesWhere (fun _ after => after.any s.contains) none t) := by
        rw [Nat.bit_val]
        rfl
      rw [hbit]
      constructor
      · intro hj
        cases j with
        | zero =>
          rw [Nat.testBit_bit_zero] at hj
          cases hj
        | succ i =>
          rw [Nat.testBit_bit_succ, Nat.testBit_and, Bool.and_eq_true, hset] at hj
          exact ⟨i, hj.1, rfl, hj.2⟩
      · rintro ⟨i, hi, rfl, hc⟩
        rw [Nat.testBit_bit_succ, Nat.testBit_and, Bool.and_eq_true, hset]
        exact ⟨hi, hc⟩
    | place a =>
      show (places &&& placesWhere a.holds none t).testBit j = true ↔ _
      rw [Nat.testBit_and, Bool.and_eq_true, testBit_placesWhere]
      have hbefore : (if j = 0 then none else Pattern.before? t j) = Pattern.before? t j := by
        cases j with
        | zero => rfl
        | succ j => rfl
      rw [hbefore]
      constructor
      · rintro ⟨hj, hlen, hholds⟩
        exact ⟨j, hj, rfl, hlen, hholds⟩
      · rintro ⟨i, hi, rfl, hlen, hholds⟩
        exact ⟨hi, hlen, hholds⟩

/-! ### Patterns -/

namespace Pattern

/-- **The image of a set of places is where the matches that start in it end.** -/
theorem images_image (t : Text) (p : Pattern Atom) :
    Images (t.length + 1) ((p.map (Step.ofAtom t)).image (t.length + 1)) (Leads t p) := by
  induction p with
  | empty =>
    refine ⟨?_, ?_⟩
    · rintro i j rfl hi
      exact hi
    · intro places _ j
      exact ⟨fun hj => ⟨j, hj, rfl⟩, by rintro ⟨i, hi, rfl⟩; exact hi⟩
  | atom a => exact images_atom t a
  | seq p q hp hq =>
    have hseq := images_seq hp hq
    exact hseq
  | alt p q hp hq =>
    have halt := images_alt hp hq
    exact halt
  | loop p least most hp =>
    cases most with
    | none =>
      have hloop := images_seq (images_repeat hp least) (images_saturate_count hp)
      refine hloop.congr fun i j => ?_
      constructor
      · rintro ⟨k, hik, n, hkj⟩
        exact ⟨least + n, by omega, fun _ hm => (nomatch hm), hik.add hkj⟩
      · rintro ⟨n, hn, -, hij⟩
        obtain ⟨m, rfl⟩ := Nat.exists_eq_add_of_le hn
        obtain ⟨k, hik, hkj⟩ := hij.exists_of_add
        exact ⟨k, hik, m, hkj⟩
    | some m =>
      have hloop := images_seq (images_repeat hp least) (images_saturate hp (m - least))
      refine hloop.congr fun i j => ?_
      constructor
      · rintro ⟨k, hik, n, hn, hkj⟩
        refine ⟨least + n, by omega, ?_, hik.add hkj⟩
        rintro l hl
        obtain rfl := Option.some.inj hl
        omega
      · rintro ⟨n, hn, hmost, hij⟩
        have hle := hmost m rfl
        obtain ⟨l, rfl⟩ := Nat.exists_eq_add_of_le hn
        obtain ⟨k, hik, hkj⟩ := hij.exists_of_add
        exact ⟨k, hik, l, by omega, hkj⟩

/-- A pattern matches in a text when a match leads from one of its places. -/
theorem isMatch_iff (p : Pattern Atom) (t : Text) :
    p.isMatch t = true ↔ ∃ i ≤ t.length, ∃ j, Leads t p i j := by
  have himages := images_image t p
  have hall : 2 ^ (t.length + 1) - 1 < 2 ^ (t.length + 1) := Nat.sub_lt (Nat.two_pow_pos _) Nat.one_pos
  have hstart : ∀ i, (2 ^ (t.length + 1) - 1).testBit i = true ↔ i ≤ t.length := by
    intro i
    rw [Nat.testBit_two_pow_sub_one, decide_eq_true_eq, Nat.lt_succ_iff]
  show (((p.map (Step.ofAtom t)).image (t.length + 1) (2 ^ (t.length + 1) - 1)) != 0) = true ↔ _
  rw [bne_iff_ne]
  constructor
  · intro hne
    obtain ⟨j, hj⟩ := Nat.exists_testBit_of_ne_zero hne
    obtain ⟨i, hi, hij⟩ := (himages.testBit hall j).1 hj
    exact ⟨i, (hstart i).1 hi, j, hij⟩
  · rintro ⟨i, hi, j, hij⟩ hzero
    have hj := (himages.testBit hall j).2 ⟨i, (hstart i).2 hi, hij⟩
    rw [hzero, Nat.zero_testBit] at hj
    cases hj

end Pattern

end ScriptEmbed
