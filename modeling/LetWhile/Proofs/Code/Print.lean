import LetWhile.Proofs.Code.Library
import LetWhile.Proofs.Double.Arithmetic

/-!
How compiled programs print a number: `stride.print` writes it with no places, with one, with two,
until the text reads back as the number.

Main results, for a library that rounds correctly:

* `print_finds_places`       the search comes to the least number of places that reads back, within
                             its limit, and every text fits the buffer
* `print_like_value_iff`     when the line is the one that the language prints, which takes the
                             fewest digits
-/
namespace LetWhile.Code.Builtin

variable {lib : Library} {x : Float} {d : Data} {p : Nat}

/-- A number as the arguments of `stride.print`. -/
def number (x : Float) : List Datum := [.bit false, .double x]

/-! ## The blocks -/

/-- In front of an attempt with `p` places. -/
structure Ready (d : Data) (x : Float) (p : Nat) : Prop where
  num : d.params "num" = some (.double x)
  buffer : d.regs 0 = some (.storage 0)
  counter : d.regs 1 = some (.storage 1)
  room : ∃ content, d.storage 0 = some ⟨.array bufferSize .i8, content⟩
  places : d.storage 1 = some ⟨.i32, some (.int (BitVec.ofNat 32 p))⟩

/-- Behind an attempt with `p` places. -/
structure Tried (d : Data) (x : Float) (p : Nat) (text : String) : Prop extends Ready d x p where
  target : d.regs 13 = some (.storage 0)
  tried : d.regs 14 = some (.int (BitVec.ofNat 32 p))
  written : d.storage 0 = some ⟨.array bufferSize .i8, some (.text text)⟩

/-- What an attempt leaves behind. -/
def attempt (d : Data) (p : Nat) (text : String) (back : Float) (exact last : Bool) : Data :=
  ((d.set 13 (.storage 0)).set 14 (.int (BitVec.ofNat 32 p))
    |>.put 0 ⟨.array bufferSize .i8, some (.text text)⟩ |>.emit (.rendered bufferSize text)
    |>.set 15 (.int (BitVec.ofNat 32 text.length)) |>.set 16 (.double back)
    |>.set 17 (.bit exact) |>.set 18 (.bit last) |>.set 19 (.bit (exact || last)))

theorem tried_attempt (ready : Ready d x p) (text : String) (back : Float) (exact last : Bool) :
    Tried (attempt d p text back exact last) x p text where
  num := ready.num
  buffer := ready.buffer
  counter := ready.counter
  room := ⟨_, rfl⟩
  places := ready.places
  target := rfl
  tried := rfl
  written := rfl

theorem toInt_ofNat {p : Nat} (small : p ≤ maxPrecision) : (BitVec.ofNat 32 p).toInt = p := by
  rw [maxPrecision] at small
  have toNat : (BitVec.ofNat 32 p).toNat = p := by
    rw [BitVec.toNat_ofNat]
    omega
  rw [BitVec.toInt_eq_toNat_of_lt (by omega), toNat]

theorem search_block (ready : Ready d x p) (small : p ≤ maxPrecision)
    (fits : (lib.fixed p x).utf8ByteSize < bufferSize) {exact : Bool}
    (reads : (lib.read (lib.fixed p x) == x) = exact) :
    ∃ code e, behind (.plain "search") print.lines = some code ∧
      d.through lib code = some (e, some (if exact = true ∨ maxPrecision ≤ p then .plain "found"
        else .plain "retry")) ∧
      Tried e x p (lib.fixed p x) ∧ e.events = .rendered bufferSize (lib.fixed p x) :: d.events := by
  refine ⟨_, attempt d p (lib.fixed p x) (lib.read (lib.fixed p x)) exact (decide (maxPrecision ≤ p)),
    rfl, ?_, tried_attempt ready _ _ _ _, rfl⟩
  obtain ⟨num, buffer, counter, ⟨content, room⟩, places⟩ := ready
  have last : (BitVec.ofNat 32 maxPrecision).sle (BitVec.ofNat 32 p) = decide (maxPrecision ≤ p) := by
    rw [BitVec.sle, toInt_ofNat small, toInt_ofNat (Nat.le_refl _), Bool.eq_iff_iff]
    simp
  simp [Data.through, perform, Data.read, Data.text, Data.set, Data.put, Data.emit, follow, num,
    buffer, counter, room, places, toInt_ofNat small, cut, fits, FloatTest.holds, BitOp.apply, reads,
    last, attempt]

theorem retry_block {text : String} (h : Tried d x p text) :
    ∃ code e, behind (.plain "retry") print.lines = some code ∧
      d.through lib code = some (e, some (.plain "search")) ∧
      Ready e x (p + 1) ∧ e.events = d.events := by
  obtain ⟨⟨num, buffer, counter, room, places⟩, target, tried, written⟩ := h
  refine ⟨_, (d.set 20 (.int (BitVec.ofNat 32 (p + 1)))).put 1
    ⟨.i32, some (.int (BitVec.ofNat 32 (p + 1)))⟩, rfl, ?_, ⟨num, buffer, counter, room, rfl⟩, rfl⟩
  simp [Data.through, perform, Data.read, Data.set, Data.put, store, follow, Datum.ty?, counter,
    places, tried, BitVec.ofNat_add]

/-- A block that prints a line and returns. -/
theorem through_line {text : String} {o : Operand} (h : d.text o = some text) (r : Nat)
    (rest : List Line) :
    ∃ e, d.through lib (.set r (.printf lineFormat o) :: .jump (.ret none) :: rest) = some (e, none) ∧
      e.events = .printed (text ++ "\n") :: d.events := by
  have format : d.text lineFormat = some "%s\n" := rfl
  have line : String.ofList (formatted text.toList "%s\n".toList) = text ++ "\n" := by
    simp [formatted]
  simp only [Data.through, perform, format, h, line, follow]
  exact ⟨_, rfl, rfl⟩

theorem found_block {text : String} (h : Tried d x p text) :
    ∃ code e, behind (.plain "found") print.lines = some code ∧
      d.through lib code = some (e, none) ∧ e.events = .printed (text ++ "\n") :: d.events := by
  have written : d.text (.reg 13) = some text := by
    simp [Data.text, Data.read, h.target, h.written]
  obtain ⟨e, done, events⟩ := through_line written 21 []
  exact ⟨_, e, rfl, done, events⟩

/-! ## The search -/

/-- An attempt with so many places. -/
def attempted (lib : Library) (x : Float) (q : Nat) : Event := .rendered bufferSize (lib.fixed q x)

/-- From `p` places on the search comes to the first `r` that read back. -/
theorem search_runs {r : Nat} (le : r ≤ maxPrecision)
    (fits : ∀ q ≤ r, (lib.fixed q x).utf8ByteSize < bufferSize)
    (reads : (lib.read (lib.fixed r x) == x) = true)
    (misses : ∀ q < r, (lib.read (lib.fixed q x) == x) = false) (k : Nat) :
    ∀ {p d}, p + k = r → Ready d x p → ∃ e, Runs lib print (.plain "search") d e ∧
      e.events.reverse = d.events.reverse ++ (List.range' p (k + 1)).map (attempted lib x) ++
        [.printed (lib.fixed r x ++ "\n")] := by
  induction k with
  | zero =>
    intro p d here ready
    obtain rfl : p = r := here
    obtain ⟨code, e, block, done, tried, events⟩ := search_block ready le (fits p (Nat.le_refl p)) reads
    obtain ⟨code', e', block', done', events'⟩ := @found_block lib _ _ _ _ tried
    refine ⟨e', .goes block done (.returns block' done'), ?_⟩
    simp [events', events, attempted]
  | succ k ih =>
    intro p d here ready
    have before : p < r := by omega
    obtain ⟨code, e, block, done, tried, events⟩ :=
      search_block ready (by omega) (fits p (Nat.le_of_lt before)) (misses p before)
    have more : ¬ (false = true ∨ maxPrecision ≤ p) := by
      simp only [Bool.false_eq_true, false_or]
      omega
    rw [if_neg more] at done
    obtain ⟨code', e', block', done', ready', events'⟩ := @retry_block lib _ _ _ _ tried
    obtain ⟨last, run, all⟩ := ih (by omega) ready'
    refine ⟨last, .goes block done (.goes block' done' run), ?_⟩
    have split : List.range' p (k + 1 + 1) = p :: List.range' (p + 1) (k + 1) := List.range'_succ ..
    rw [all, events', events, split]
    simp [attempted]

/-! ## The call -/

/-- A number that has a name instead of digits. -/
def named (x : Float) : Bool :=
  !(x == x) || (x == Float.ofBits 0x7FF0000000000000 || x == Float.ofBits 0xFFF0000000000000)

def name (x : Float) : String :=
  if x == Float.ofBits 0x7FF0000000000000 then "+Inf"
  else if x == Float.ofBits 0xFFF0000000000000 then "-Inf" else "NaN"

theorem entry_block (x : Float) :
    ∃ code d, behind (.plain "entry") print.lines = some code ∧
      (called print (number x)).through lib code = some (d, some (.plain "number")) ∧
      Ready d x 0 ∧ d.events = [] := by
  refine ⟨_, ((((called print (number x)).put 0 ⟨.array bufferSize .i8, none⟩).set 0 (.storage 0)).put 1
    ⟨.i32, none⟩).set 1 (.storage 1) |>.put 1 ⟨.i32, some (.int 0)⟩, rfl, ?_,
    ⟨rfl, rfl, rfl, ⟨_, rfl⟩, rfl⟩, rfl⟩
  simp [Data.through, perform, Data.read, Data.set, Data.put, store, follow, Datum.ty?, called,
    number, print]

theorem number_block (ready : Ready d x p) :
    ∃ code e, behind (.plain "number") print.lines = some code ∧
      d.through lib code = some (e, some (if named x then .plain "special" else .plain "search")) ∧
      Ready e x p ∧ e.regs 9 = some (.text (name x)) ∧ e.events = d.events := by
  obtain ⟨num, buffer, counter, room, places⟩ := ready
  obtain ⟨same, hsame⟩ : ∃ b, (x == x) = b := ⟨_, rfl⟩
  obtain ⟨up, hup⟩ : ∃ b, (x == Float.ofBits 0x7FF0000000000000) = b := ⟨_, rfl⟩
  obtain ⟨down, hdown⟩ : ∃ b, (x == Float.ofBits 0xFFF0000000000000) = b := ⟨_, rfl⟩
  have isNamed : named x = (!same || (up || down)) := by rw [named, hsame, hup, hdown]
  have hasName : name x = if up then "+Inf" else if down then "-Inf" else "NaN" := by
    rw [name, hup, hdown]
  rw [isNamed, hasName]
  refine ⟨_, d.set 5 (.bit !same) |>.set 6 (.bit up) |>.set 7 (.bit down)
    |>.set 8 (.text (if down then "-Inf" else "NaN"))
    |>.set 9 (.text (if up then "+Inf" else if down then "-Inf" else "NaN"))
    |>.set 10 (.bit (up || down)) |>.set 11 (.bit (!same || (up || down))), rfl, ?_,
    ⟨num, buffer, counter, room, places⟩, rfl, rfl⟩
  cases up <;> cases down <;>
    simp [Data.through, perform, Data.read, Data.set, follow, Datum.ty?, num, FloatTest.holds,
      BitOp.apply, infinity, negativeInfinity, hsame, hup, hdown, -Float.beq_self_iff]

theorem special_block {text : String} (h : d.regs 9 = some (.text text)) :
    ∃ code e, behind (.plain "special") print.lines = some code ∧
      d.through lib code = some (e, none) ∧ e.events = .printed (text ++ "\n") :: d.events := by
  have written : d.text (.reg 9) = some text := by
    simp [Data.text, Data.read, h]
  obtain ⟨e, done, events⟩ := through_line written 12 _
  exact ⟨_, e, rfl, done, events⟩

theorem named_of_finite (finite : x.isFinite = true) : named x = false := by
  have below := Double.code_lt_infinity finite
  have isNumber : x ≠ Float.nan := by
    rintro rfl
    rw [Double.code_nan] at below
    exact absurd below (by decide)
  have bounded (sign : Bool) : (x == Double.ofCode sign Double.infinity) = false := by
    rw [Bool.eq_false_iff]
    intro same
    have code := Double.code_eq_of_beq same
    rw [Double.code_ofCode sign (Nat.le_refl _)] at code
    omega
  have up : (x == Float.ofBits 0x7FF0000000000000) = false := bounded false
  have down : (x == Float.ofBits 0xFFF0000000000000) = false := bounded true
  rw [named, Float.beq_self_iff.2 isNumber, up, down]
  rfl

/-- The names are those that the language has. -/
theorem named_of_not_finite (special : x.isFinite = false) :
    named x = true ∧ name x = (Value.number x).text := by
  rcases Double.cases_of_not_isFinite special with rfl | rfl | rfl
  · decide
  · decide
  · decide

theorem performs_special (special : x.isFinite = false) :
    Performs lib print (number x) [.printed ((Value.number x).text ++ "\n")] := by
  obtain ⟨isNamed, hasName⟩ := named_of_not_finite special
  obtain ⟨code, d, entry, entered, ready, fresh⟩ := @entry_block lib x
  obtain ⟨code', d', block, done, -, text, kept⟩ := @number_block lib _ _ _ ready
  obtain ⟨code'', d'', block', done', events⟩ := @special_block lib _ _ text
  rw [isNamed] at done
  refine ⟨d'', .goes entry entered (.goes block done (.returns block' done')), ?_⟩
  rw [events, kept, fresh, hasName]
  rfl

/-- The attempts up to `r` places, and the line. -/
def found (lib : Library) (x : Float) (r : Nat) : List Event :=
  (List.range (r + 1)).map (attempted lib x) ++ [.printed (lib.fixed r x ++ "\n")]

theorem performs_search (finite : x.isFinite = true) {r : Nat} (le : r ≤ maxPrecision)
    (fits : ∀ q ≤ r, (lib.fixed q x).utf8ByteSize < bufferSize)
    (reads : (lib.read (lib.fixed r x) == x) = true)
    (misses : ∀ q < r, (lib.read (lib.fixed q x) == x) = false) :
    Performs lib print (number x) (found lib x r) := by
  obtain ⟨code, d, entry, entered, ready, fresh⟩ := @entry_block lib x
  obtain ⟨code', d', block, done, ready', -, kept⟩ := @number_block lib _ _ _ ready
  obtain ⟨d'', run, events⟩ := search_runs le fits reads misses r (Nat.zero_add r) ready'
  rw [named_of_finite finite] at done
  refine ⟨d'', .goes entry entered (.goes block done run), ?_⟩
  rw [events, kept, fresh, found, List.range_eq_range']
  rfl

/-! ## Rounding correctly -/

/-- Places are enough when what they show names the number. -/
theorem reads_iff (exact : lib.Exact) (finite : x.isFinite = true) (p : Nat) :
    (lib.read (lib.fixed p x) == x) = true ↔
      Decimal.Names (Decimal.fixed p (Double.code x)) (Double.code x) := by
  have below := Double.code_lt_infinity finite
  have same (n : Nat) : (Double.ofCode (Double.negative x) (min Double.infinity n) == x) = true ↔
      min Double.infinity n = Double.code x := by
    rw [← Double.beq_ofCode (Nat.min_le_left ..) (Nat.le_of_lt below), ← Double.eq_ofCode x]
  rw [exact.fixed p x finite, exact.read, Decimal.names_iff, same]
  omega

theorem utf8ByteSize_spelled_le (sign : Bool) (d : Decimal) :
    (d.spelled sign).utf8ByteSize ≤ d.positional.length + 1 := by
  have single (cs : List Char) (h : ∀ c ∈ cs, c.utf8Size = 1) : String.utf8Len cs = cs.length := by
    induction cs with
    | nil => rfl
    | cons c cs ih =>
      rw [String.utf8Len_cons, h c List.mem_cons_self, List.length_cons,
        ih fun c' there => h c' (List.mem_cons_of_mem c there)]
  have digits : String.utf8Len d.positional = d.positional.length := by
    apply single
    intro c there
    rw [Char.utf8Size_eq_one_iff]
    rcases Decimal.plain_of_mem_positional there with digit | rfl
    · have le := (Number.isAsciiDigit_iff.1 digit).2
      exact Nat.le_trans le (by decide)
    · decide
  have minus : '-'.utf8Size = 1 := by decide
  rw [Decimal.spelled, String.utf8ByteSize_ofList]
  split
  · rw [String.utf8Len_cons, digits, minus]
  · rw [digits]
    omega

/-- A sign, 309 digits, a point, 1074 places and the end of the text fit the buffer. -/
theorem text_fits (exact : lib.Exact) (finite : x.isFinite = true) {p : Nat} (le : p ≤ maxPrecision) :
    (lib.fixed p x).utf8ByteSize + 1 ≤ bufferSize := by
  have long := Decimal.length_positional_fixed (Double.code_lt_infinity finite) p
  have bytes := utf8ByteSize_spelled_le (Double.negative x) (Decimal.fixed p (Double.code x))
  rw [exact.fixed p x finite]
  rw [maxPrecision] at le
  rw [bufferSize]
  omega

theorem misses_of_names (exact : lib.Exact) (finite : x.isFinite = true)
    (least : ∀ q < p, ¬ Decimal.Names (Decimal.fixed q (Double.code x)) (Double.code x)) :
    ∀ q < p, (lib.read (lib.fixed q x) == x) = false := by
  intro q before
  rw [Bool.eq_false_iff, ne_eq, reads_iff exact finite]
  exact least q before

theorem performs_found (exact : lib.Exact) (finite : x.isFinite = true) {p : Nat}
    (le : p ≤ maxPrecision) (reads : (lib.read (lib.fixed p x) == x) = true)
    (misses : ∀ q < p, (lib.read (lib.fixed q x) == x) = false) :
    Performs lib print (number x) (found lib x p) :=
  performs_search finite le (fun _ before => text_fits exact finite (Nat.le_trans before le)) reads
    misses

/-- **The search.** It comes to an end at the least number of places that reads back as the number,
which its limit does not cut, and prints that text; every text tried fits the buffer together with
its end. -/
theorem print_finds_places (exact : lib.Exact) (finite : x.isFinite = true) :
    ∃ p ≤ maxPrecision, (lib.read (lib.fixed p x) == x) = true ∧
      (∀ q < p, (lib.read (lib.fixed q x) == x) = false) ∧
      (∀ events, Performs lib print (number x) events ↔
        events = (List.range (p + 1)).map (attempted lib x) ++ [.printed (lib.fixed p x ++ "\n")]) ∧
      ∀ q ≤ p, (lib.fixed q x).utf8ByteSize + 1 ≤ bufferSize := by
  obtain ⟨p, le, names, least⟩ := Decimal.exists_places (Double.code x)
  have reads := (reads_iff exact finite p).2 names
  have misses := misses_of_names exact finite least
  have performs := performs_found exact finite le reads misses
  refine ⟨p, le, reads, misses, ?_, fun q before => text_fits exact finite (Nat.le_trans before le)⟩
  intro events
  constructor
  · exact performs.unique
  · rintro rfl
    exact performs

theorem print_finds_places_tenth : (0.1 : Float).isFinite = true ∧
    ∃ p ≤ maxPrecision, (Library.correct.read (Library.correct.fixed p 0.1) == 0.1) = true ∧
      (∀ q < p, (Library.correct.read (Library.correct.fixed q 0.1) == 0.1) = false) ∧
      (∀ events, Performs Library.correct print (number 0.1) events ↔
        events = (List.range (p + 1)).map (attempted Library.correct 0.1) ++
          [.printed (Library.correct.fixed p 0.1 ++ "\n")]) ∧
      ∀ q ≤ p, (Library.correct.fixed q 0.1).utf8ByteSize + 1 ≤ bufferSize :=
  ⟨by decide, print_finds_places Library.correct_exact (by decide)⟩

/-! ## The line of the language -/

/-- All that is printed. -/
def printed (events : List Event) : String :=
  String.join (events.filterMap fun e =>
    match e with
    | .printed text => some text
    | .rendered _ _ => none)

/-- What the function prints for a number. -/
def Prints (lib : Library) (x : Float) (line : String) : Prop :=
  ∃ events, Performs lib print (number x) events ∧ printed events = line

theorem Prints.unique {line line' : String} (h : Prints lib x line) (h' : Prints lib x line') :
    line' = line := by
  obtain ⟨events, run, rfl⟩ := h
  obtain ⟨events', run', rfl⟩ := h'
  rw [run.unique run']

theorem printed_found (r : Nat) : printed (found lib x r) = lib.fixed r x ++ "\n" := by
  have quiet (qs : List Nat) : (qs.map (attempted lib x)).filterMap (fun e =>
      match e with
      | .printed text => some text
      | .rendered _ _ => none) = [] := by
    rw [List.filterMap_eq_nil_iff]
    intro e there
    obtain ⟨q, -, rfl⟩ := List.mem_map.1 there
    rfl
  rw [printed, found, List.filterMap_append, quiet]
  simp [String.join]

theorem prints_special (special : x.isFinite = false) :
    Prints lib x ((Value.number x).text ++ "\n") :=
  ⟨_, performs_special special, by simp [printed, String.join]⟩

/-- What is printed for a finite number. -/
theorem exists_prints (exact : lib.Exact) (finite : x.isFinite = true) :
    ∃ p, Prints lib x ((Decimal.fixed p (Double.code x)).spelled (Double.negative x) ++ "\n") ∧
      ((Decimal.fixed p (Double.code x)).positional = (Decimal.shortest (Double.code x)).positional ↔
        Decimal.Rounded (Double.code x)) := by
  obtain ⟨p, le, names, least⟩ := Decimal.exists_places (Double.code x)
  have reads := (reads_iff exact finite p).2 names
  have misses := misses_of_names exact finite least
  refine ⟨p, ⟨_, performs_found exact finite le reads misses, ?_⟩, ?_⟩
  · rw [printed_found, exact.fixed p x finite]
  · exact Decimal.positional_fixed_iff names least

theorem exists_line (exact : lib.Exact) (x : Float) : ∃ line, Prints lib x line := by
  by_cases finite : x.isFinite = true
  · obtain ⟨p, prints, -⟩ := exists_prints exact finite
    exact ⟨_, prints⟩
  · exact ⟨_, prints_special (Bool.eq_false_iff.2 finite)⟩

theorem spelled_line_inj {sign : Bool} {d d' : Decimal} :
    d.spelled sign ++ "\n" = d'.spelled sign ++ "\n" ↔ d.positional = d'.positional := by
  rw [String.append_left_inj, Decimal.spelled, Decimal.spelled, String.ofList_inj]
  cases sign <;> simp

theorem prints_text_iff (exact : lib.Exact) (x : Float) :
    Prints lib x ((Value.number x).text ++ "\n") ↔
      (x.isFinite = true → Decimal.Rounded (Double.code x)) := by
  by_cases finite : x.isFinite = true
  · obtain ⟨p, prints, same⟩ := exists_prints exact finite
    rw [Value.text_of_finite finite, forall_prop_of_true finite, ← same]
    constructor
    · intro prints'
      exact (spelled_line_inj.1 (prints.unique prints')).symm
    · intro alike
      rwa [← spelled_line_inj.2 alike]
  · exact iff_of_true (prints_special (Bool.eq_false_iff.2 finite)) fun h => (finite h).elim

/-- **The line of a number.** A number is printed as the language prints it exactly when its shortest
decimal is what it is rounded to at as many places. So it is below `2 ^ 53` but for powers of two
less than one; from there on only when the shortest decimal is exact, for the places of the language
are then zeros, and those printed here are digits of the number. -/
theorem print_like_value_iff (exact : lib.Exact) (x : Float) :
    (∃! line, Prints lib x line) ∧
    (Prints lib x ((Value.number x).text ++ "\n") ↔
      (x.isFinite = true → Decimal.Rounded (Double.code x))) ∧
    (Double.magnitude (Double.code x) < 2 ^ 53 * Double.one →
      (Double.code x % Double.binade ≠ 0 ∨ Double.code x ≤ Double.binade ∨
        Double.one ≤ Double.magnitude (Double.code x)) →
      Prints lib x ((Value.number x).text ++ "\n")) ∧
    (x.isFinite = true → 2 ^ 53 * Double.one ≤ Double.magnitude (Double.code x) →
      (Prints lib x ((Value.number x).text ++ "\n") ↔
        Decimal.isExact (Decimal.shortest (Double.code x)) (Double.code x) = true)) := by
  refine ⟨?_, prints_text_iff exact x, ?_, ?_⟩
  · obtain ⟨line, prints⟩ := exists_line exact x
    exact ⟨line, prints, fun _ prints' => prints.unique prints'⟩
  · intro small regular
    rw [prints_text_iff exact]
    intro
    exact Decimal.rounded_of_magnitude_lt small regular
  · intro finite large
    rw [prints_text_iff exact, forall_prop_of_true finite]
    exact Decimal.rounded_iff_isExact large

theorem print_like_value_iff_rounded : Library.correct.Exact ∧
    Prints Library.correct 0.1 ((Value.number 0.1).text ++ "\n") ∧
    Prints Library.correct 1e22 ((Value.number 1e22).text ++ "\n") :=
  ⟨Library.correct_exact,
    (print_like_value_iff Library.correct_exact 0.1).2.1.2 fun _ => by decide +kernel,
    ((print_like_value_iff Library.correct_exact 1e22).2.2.2 (by decide +kernel)
      (by decide +kernel)).2 (by decide +kernel)⟩

/-- The last digit of `2 ^ 55` is no zero, though sixteen digits are enough to name it; and of the two
decimals with sixteen digits at the same distance from `2 ^ -24`, the even one does not name it. -/
theorem print_unlike_value : Library.correct.Exact ∧
    (Value.number 36028797018963968).text = "36028797018963970" ∧
    Prints Library.correct 36028797018963968 "36028797018963968\n" ∧
    ¬ Prints Library.correct 36028797018963968 "36028797018963970\n" ∧
    (Value.number 5.9604644775390625e-8).text = "0.00000005960464477539063" ∧
    ¬ Prints Library.correct 5.9604644775390625e-8 "0.00000005960464477539063\n" := by
  have exact := Library.correct_exact
  have large : (Value.number 36028797018963968).text = "36028797018963970" := by decide +kernel
  have small : (Value.number 5.9604644775390625e-8).text = "0.00000005960464477539063" := by
    decide +kernel
  have unlike := prints_text_iff exact 36028797018963968
  have unlike' := prints_text_iff exact 5.9604644775390625e-8
  rw [large] at unlike
  rw [small] at unlike'
  refine ⟨exact, large, ?_, ?_, small, ?_⟩
  · have reads := (reads_iff exact (by decide +kernel) 0).2
      (show Decimal.Names (Decimal.fixed 0 (Double.code 36028797018963968)) _ by decide +kernel)
    refine ⟨_, performs_found exact (by decide +kernel) (Nat.zero_le _) reads ?_, ?_⟩
    · intro q before
      exact absurd before (Nat.not_lt_zero q)
    · rw [printed_found]
      decide +kernel
  · intro alike
    exact absurd (unlike.1 alike (by decide +kernel)) (by decide +kernel)
  · intro alike
    exact absurd (unlike'.1 alike (by decide +kernel)) (by decide +kernel)

end LetWhile.Code.Builtin
