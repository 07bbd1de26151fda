import IsaCloud.Support.DateTime
import IsaCloud.Support.Python

/-!
# ISO 8601 timestamps

`fromisoformat` follows the reference implementation of the standard library,
with ASCII digits only; its messages name no input. A naive or aware datetime is
a wall clock with the offset of its zone; `astimezone` moves it to UTC and fails
outside the years 1 to 9999.
-/

namespace Support.IsoTime

set_option autoImplicit false

open Text Python Calendar DateTime

/-- The end of year 9999. -/
def maxInstant : Nat := 3652059 * usPerDay

structure PyDateTime where
  wall : Instant
  /-- Microseconds east of UTC; `none` for a naive datetime. -/
  offset : Option Int
  deriving DecidableEq, Repr

def valueError (message : String) : PyError := ⟨.valueError, lit message⟩

def dateOutOfRange : PyError := ⟨.overflowError, lit "date value out of range"⟩

/-- A result of datetime arithmetic, if it is a datetime. -/
def checkInstant (t : Int) : Except PyError Instant :=
  if 0 ≤ t ∧ t < maxInstant then .ok t.toNat else .error dateOutOfRange

/-- `dt.astimezone(timezone.utc)` for a wall clock in a zone. -/
def astimezone (wall : Instant) (offset : Int) : Except PyError Instant :=
  checkInstant (wall - offset)

/-! ## Writing -/

def dash : CodePoint := cp '-'
def colonMark : CodePoint := cp ':'

def dateText (year : Str) (t : Instant) : Str :=
  year ++ dash :: (padText 2 (dateOf t).month ++ dash :: padText 2 (dateOf t).day)

def clockText (t : Instant) : Str :=
  padText 2 (hourOf t) ++ colonMark :: (padText 2 (minuteOf t) ++ colonMark :: padText 2 (secondOf t))

/-- `strftime("%Y-%m-%dT%H:%M:%SZ")`; glibc does not pad the year. -/
def isoText (t : Instant) : Str :=
  dateText (natText (dateOf t).year) t ++ cp 'T' :: (clockText t ++ [cp 'Z'])

/-- `datetime.isoformat()` of an instant in UTC. -/
def isoformat (t : Instant) : Str :=
  dateText (padText 4 (dateOf t).year) t ++ cp 'T' :: (clockText t ++
    ((if microsecondOf t = 0 then [] else cp '.' :: padText 6 (microsecondOf t)) ++ lit "+00:00"))

/-- The offset of `isoformat()`, with seconds and microseconds only where it has them. -/
def offsetText (offset : Int) : Str :=
  let us := offset.natAbs
  (if offset < 0 then dash else cp '+') :: (padText 2 (us / usPerHour) ++
    colonMark :: (padText 2 (us % usPerHour / usPerMinute) ++
      (if us % usPerMinute = 0 then []
      else colonMark :: (padText 2 (us % usPerMinute / usPerSecond) ++
        (if us % usPerSecond = 0 then [] else cp '.' :: padText 6 (us % usPerSecond))))))

/-- `datetime.isoformat()` of any datetime. -/
def PyDateTime.isoformat (t : PyDateTime) : Str :=
  dateText (padText 4 (dateOf t.wall).year) t.wall ++ cp 'T' :: (clockText t.wall ++
    ((if microsecondOf t.wall = 0 then [] else cp '.' :: padText 6 (microsecondOf t.wall)) ++
      (match t.offset with
      | none => []
      | some offset => offsetText offset)))

/-! ## Reading -/

/-- Exactly `n` digits from the front. -/
def takeDigits (n : Nat) (s : Str) : Option (Nat × Str) :=
  if (s.take n).length = n ∧ (s.take n).all isDigit = true then
    some (digitsValue (s.take n), s.drop n)
  else none

def dropMark (hasSep : Bool) (s : Str) : Str := if hasSep then s.drop 1 else s

def findIsoformatDatetimeSeparator (s : Str) : Option Nat :=
  if s.length = 7 then some 7
  else if s[4]? = some dash then
    if s[5]? = some (cp 'W') then
      if s[8]? = some dash then
        if s.length = 9 then none
        else if ((s[10]?).map isDigit).getD false then some 8
        else some 10
      else some 8
    else some 10
  else if s[4]? = some (cp 'W') then
    let idx := 7 + ((s.drop 7).takeWhile isDigit).length
    if idx < 9 then some idx else if idx % 2 = 0 then some 7 else some 8
  else some 8

def isoweek1monday (year : Nat) : Nat :=
  let firstday := ymd2ord ⟨year, 1, 1⟩
  let firstweekday := (firstday + 6) % 7
  if 3 < firstweekday then firstday - firstweekday + 7 else firstday - firstweekday

def isoweekToGregorian (year week day : Nat) : Option Date :=
  let firstWeekday := ymd2ord ⟨year, 1, 1⟩ % 7
  let longYear := firstWeekday == 4 || (firstWeekday == 3 && isLeap year)
  if (1 ≤ year ∧ year ≤ 9999) ∧ ((0 < week ∧ week < 53) ∨ (week = 53 ∧ longYear = true)) ∧
      (0 < day ∧ day < 8) then
    some (ord2ymd (isoweek1monday year + (week - 1) * 7 + (day - 1)))
  else none

def parseIsoformatDate (s : Str) : Option Date :=
  match takeDigits 4 s with
  | none => none
  | some (year, s₁) =>
    let hasSep := s₁.head? == some dash
    let s₂ := dropMark hasSep s₁
    if s₂.head? = some (cp 'W') then
      match takeDigits 2 (s₂.drop 1) with
      | none => none
      | some (week, s₃) =>
        if s₃ = [] then isoweekToGregorian year week 1
        else if (s₃.head? == some dash) ≠ hasSep then none
        else
          match takeDigits 1 (dropMark hasSep s₃) with
          | none => none
          | some (day, _) => isoweekToGregorian year week day
    else
      match takeDigits 2 s₂ with
      | none => none
      | some (month, s₃) =>
        if (s₃.head? == some dash) ≠ hasSep then none
        else
          match takeDigits 2 (dropMark hasSep s₃) with
          | none => none
          | some (day, _) => some ⟨year, month, day⟩

structure Clock where
  hour : Nat
  minute : Nat
  second : Nat
  microsecond : Nat
  deriving DecidableEq, Repr

/-- The microseconds after the seconds: nothing, or a mark and digits, of which six count. -/
def parseFraction (s : Str) : Option Nat :=
  match s with
  | [] => some 0
  | c :: rest =>
    if (c = cp '.' ∨ c = cp ',') ∧ rest ≠ [] ∧ rest.all isDigit = true then
      some (digitsValue (rest.take 6) * 10 ^ (6 - (rest.take 6).length))
    else none

/-- `HH[:?MM[:?SS[{.,}fff[fff]]]]`. -/
def parseHhMmSsFf (s : Str) : Option Clock :=
  match takeDigits 2 s with
  | none => none
  | some (hour, s₁) =>
    let hasSep := s₁.head? == some colonMark
    if s₁ = [] then some ⟨hour, 0, 0, 0⟩
    else
      match takeDigits 2 (dropMark hasSep s₁) with
      | none => none
      | some (minute, s₂) =>
        if s₂ = [] then some ⟨hour, minute, 0, 0⟩
        else if hasSep = true ∧ s₂.head? ≠ some colonMark then none
        else
          match takeDigits 2 (dropMark hasSep s₂) with
          | none => none
          | some (second, s₃) =>
            match parseFraction s₃ with
            | none => none
            | some us => some ⟨hour, minute, second, us⟩

def Clock.span (c : Clock) : Nat :=
  c.hour * usPerHour + c.minute * usPerMinute + c.second * usPerSecond + c.microsecond

/-- The zone starts at the first `-`, else the first `+`, else the first `Z`. -/
def zoneMark (s : Str) : CodePoint :=
  if dash ∈ s then dash else if cp '+' ∈ s then cp '+' else cp 'Z'

/-- The zone after its mark: `none` for an error, `some none` for no zone. -/
def parseZone (s : Str) : Option (Option Int) :=
  match s with
  | [] => some none
  | mark :: zone =>
    if mark = cp 'Z' ∧ zone = [] then some (some 0)
    else if zone.length = 0 ∨ zone.length = 1 ∨ zone.length = 3 then none
    else
      match parseHhMmSsFf zone with
      | none => none
      | some c =>
        if c.span < usPerDay then
          some (some (if mark = dash then -(c.span : Int) else c.span))
        else none

def parseIsoformatTime (s : Str) : Option (Clock × Option Int) :=
  if s.length < 2 then none
  else
    match parseHhMmSsFf (s.takeWhile (· != zoneMark s)) with
    | none => none
    | some clock =>
      match parseZone (s.dropWhile (· != zoneMark s)) with
      | none => none
      | some zone => some (clock, zone)

/-- The constructor's checks of its fields. -/
def makeDatetime (d : Date) (c : Clock) (zone : Option Int) : Except PyError PyDateTime :=
  if ¬ (1 ≤ d.year ∧ d.year ≤ 9999) then .error (valueError "year is out of range")
  else if ¬ (1 ≤ d.month ∧ d.month ≤ 12) then .error (valueError "month must be in 1..12")
  else if ¬ (1 ≤ d.day ∧ d.day ≤ daysInMonth (isLeap d.year) d.month) then
    .error (valueError "day is out of range for month")
  else if ¬ c.hour < 24 then .error (valueError "hour must be in 0..23")
  else if ¬ c.minute < 60 then .error (valueError "minute must be in 0..59")
  else if ¬ c.second < 60 then .error (valueError "second must be in 0..59")
  else .ok ⟨(ymd2ord d - 1) * usPerDay + c.span, zone⟩

def invalidIsoformat : PyError := valueError "Invalid isoformat string"

def fromisoformat (s : Str) : Except PyError PyDateTime :=
  if s.length < 7 then .error invalidIsoformat
  else
    match findIsoformatDatetimeSeparator s with
    | none => .error invalidIsoformat
    | some loc =>
      match parseIsoformatDate (s.take loc) with
      | none => .error invalidIsoformat
      | some d =>
        if s.drop (loc + 1) = [] then makeDatetime d ⟨0, 0, 0, 0⟩ none
        else
          match parseIsoformatTime (s.drop (loc + 1)) with
          | none => .error invalidIsoformat
          | some (c, zone) => makeDatetime d c zone

/-! ## Reading back what was written -/

theorem takeDigits_append {ds : Str} (h : ∀ c ∈ ds, isDigit c = true) (rest : Str) :
    takeDigits ds.length (ds ++ rest) = some (digitsValue ds, rest) := by
  have htake : (ds ++ rest).take ds.length = ds := by simp
  have hall : ds.all isDigit = true := List.all_eq_true.mpr h
  simp [takeDigits, htake, hall]

theorem takeDigits_padText {w n : Nat} (h : n < 10 ^ w) (rest : Str) :
    takeDigits w (padText w n ++ rest) = some (n, rest) := by
  have := takeDigits_append (fun c hc => isDigit_of_mem_padText (w := w) (n := n) hc) rest
  rwa [padText_length, digitsValue_padText h] at this

theorem natText_eq_padText {n : Nat} (h : 1000 ≤ n) (h' : n < 10000) : natText n = padText 4 n := by
  have hne : n ≠ 0 := by omega
  have h1 : Nat.digits 10 n = [n % 10, n / 10 % 10, n / 10 / 10 % 10, n / 10 / 10 / 10] := by
    rw [Nat.digits_def' (by decide) (by omega), Nat.digits_def' (by decide) (by omega),
      Nat.digits_def' (by decide) (by omega), Nat.digits_of_lt 10 _ (by omega) (by omega)]
  have h2 : n / 10 / 10 / 10 % 10 = n / 10 / 10 / 10 := Nat.mod_eq_of_lt (by omega)
  simp [natText, hne, h1, padText, h2]

theorem minuteOf_lt (t : Instant) : minuteOf t < 60 := by
  unfold minuteOf usPerHour usPerMinute usPerSecond
  omega

theorem secondOf_lt (t : Instant) : secondOf t < 60 := by
  unfold secondOf usPerMinute usPerSecond
  omega

theorem clockText_length (t : Instant) : (clockText t).length = 8 := by
  simp [clockText]

/-- The characters of a clock are digits and colons. -/
theorem mem_clockText {t : Instant} {c : CodePoint} (h : c ∈ clockText t) :
    isDigit c = true ∨ c = colonMark := by
  simp only [clockText, List.mem_append, List.mem_cons] at h
  rcases h with h | h | h | h | h
  · exact .inl (isDigit_of_mem_padText h)
  · exact .inr h
  · exact .inl (isDigit_of_mem_padText h)
  · exact .inr h
  · exact .inl (isDigit_of_mem_padText h)

theorem parseHhMmSsFf_clockText (t : Instant) :
    parseHhMmSsFf (clockText t) = some ⟨hourOf t, minuteOf t, secondOf t, 0⟩ := by
  have hh := hourOf_lt t
  have hm := minuteOf_lt t
  have hs := secondOf_lt t
  have hsec : takeDigits 2 (padText 2 (secondOf t)) = some (secondOf t, []) := by
    simpa using takeDigits_padText (w := 2) (n := secondOf t) (by omega) []
  have h1 := takeDigits_padText (w := 2) (n := hourOf t) (by omega)
    (colonMark :: (padText 2 (minuteOf t) ++ colonMark :: padText 2 (secondOf t)))
  have h2 := takeDigits_padText (w := 2) (n := minuteOf t) (by omega)
    (colonMark :: padText 2 (secondOf t))
  simp [parseHhMmSsFf, clockText, h1, h2, hsec, dropMark, parseFraction]

theorem parseZone_utc : parseZone (lit "+00:00") = some (some 0) := by
  have hsplit : lit "+00:00" = cp '+' :: lit "00:00" := by decide
  have hmark : ¬ (cp '+' = cp 'Z' ∧ lit "00:00" = []) := by decide
  have hlen : ¬ ((lit "00:00").length = 0 ∨ (lit "00:00").length = 1 ∨
      (lit "00:00").length = 3) := by decide
  have hclock : parseHhMmSsFf (lit "00:00") = some ⟨0, 0, 0, 0⟩ := by decide
  have hspan : (⟨0, 0, 0, 0⟩ : Clock).span < usPerDay := by
    simp [Clock.span, usPerDay, usPerSecond]
  rw [hsplit, parseZone, if_neg hmark, if_neg hlen, hclock]
  simp only [hspan, if_true]
  simp [Clock.span]

theorem parseIsoformatTime_utc (t : Instant) :
    parseIsoformatTime (clockText t ++ lit "+00:00") =
      some (⟨hourOf t, minuteOf t, secondOf t, 0⟩, some 0) := by
  have hnot : ∀ m : CodePoint, isDigit m = false → m ≠ colonMark → m ∉ clockText t := by
    intro m hd hm hmem
    rcases mem_clockText hmem with h | h
    · rw [hd] at h
      exact Bool.false_ne_true h
    · exact hm h
  have hplus : lit "+00:00" = cp '+' :: lit "00:00" := by decide
  have hmark : zoneMark (clockText t ++ lit "+00:00") = cp '+' := by
    have h1 : dash ∉ clockText t := hnot dash (by decide) (by decide)
    have h2 : dash ∉ lit "+00:00" := by decide
    have h3 : cp '+' ∈ lit "+00:00" := by decide
    simp [zoneMark, h1, h2, h3]
  have hne : ∀ c ∈ clockText t, (c != cp '+') = true := by
    intro c hc
    have : c ≠ cp '+' := fun he => hnot (cp '+') (by decide) (by decide) (he ▸ hc)
    simpa using this
  have htake : (clockText t ++ lit "+00:00").takeWhile (· != cp '+') = clockText t := by
    rw [List.takeWhile_append_of_pos hne, hplus]
    simp
  have hdrop : (clockText t ++ lit "+00:00").dropWhile (· != cp '+') = lit "+00:00" := by
    rw [List.dropWhile_append_of_pos hne, hplus]
    simp
  have hlen : ¬ (clockText t ++ lit "+00:00").length < 2 := by
    simp only [List.length_append, clockText_length]
    omega
  rw [parseIsoformatTime, if_neg hlen, hmark, htake, hdrop, parseHhMmSsFf_clockText, parseZone_utc]

theorem dateText_length {year : Str} (h : year.length = 4) (t : Instant) :
    (dateText year t).length = 10 := by
  simp [dateText, h]

theorem parseIsoformatDate_dateText {y : Nat} (hy : y < 10 ^ 4) (t : Instant) :
    parseIsoformatDate (dateText (padText 4 y) t) =
      some ⟨y, (dateOf t).month, (dateOf t).day⟩ := by
  have hm := month_lt t
  have hday : takeDigits 2 (padText 2 (dateOf t).day) = some ((dateOf t).day, []) := by
    simpa using takeDigits_padText (day_lt t) []
  have h1 := takeDigits_padText hy
    (dash :: (padText 2 (dateOf t).month ++ dash :: padText 2 (dateOf t).day))
  have h2 := takeDigits_padText hm (dash :: padText 2 (dateOf t).day)
  have hhead : (padText 2 (dateOf t).month ++ dash :: padText 2 (dateOf t).day).head? ≠
      some (cp 'W') := by
    intro hW
    have hmem : cp 'W' ∈ padText 2 (dateOf t).month := by
      have hlen := padText_length 2 (dateOf t).month
      cases hp : padText 2 (dateOf t).month with
      | nil => simp [hp] at hlen
      | cons c cs =>
        rw [hp] at hW
        simp only [List.cons_append, List.head?_cons, Option.some.injEq] at hW
        exact hW ▸ List.mem_cons_self
    exact absurd (isDigit_of_mem_padText hmem) (by decide)
  simp only [parseIsoformatDate, dateText, h1, dropMark, List.head?_cons, beq_self_eq_true, if_true,
    List.drop_succ_cons, List.drop_zero, if_neg hhead, h2, hday, ne_eq, not_true_eq_false, if_false]

theorem getElem?_dateText {y : Nat} (t : Instant) (rest : Str) :
    (dateText (padText 4 y) t ++ rest)[4]? = some dash ∧
      (dateText (padText 4 y) t ++ rest)[5]? ≠ some (cp 'W') := by
  have hm : (padText 2 (dateOf t).month) =
      [digit ((dateOf t).month / 10 % 10), digit ((dateOf t).month % 10)] := by
    simp [padText]
  have hne : digit ((dateOf t).month / 10 % 10) ≠ cp 'W' := by
    intro h
    have := isDigit_digit (Nat.mod_lt ((dateOf t).month / 10) (by decide : 0 < 10))
    rw [h] at this
    exact absurd this (by decide)
  constructor
  · simp [dateText, hm]
  · simpa [dateText, List.getElem?_append, hm] using hne

/-- The instant without its fraction of a second. -/
def wholeSecond (t : Instant) : Instant := t - t % usPerSecond

theorem instant_split (t : Nat) : t / usPerDay * usPerDay +
    (hourOf t * usPerHour + minuteOf t * usPerMinute + secondOf t * usPerSecond) =
      wholeSecond t := by
  unfold wholeSecond hourOf minuteOf secondOf usPerDay usPerHour usPerMinute usPerSecond
  omega

theorem span_whole (h m s : Nat) :
    (⟨h, m, s, 0⟩ : Clock).span = h * usPerHour + m * usPerMinute + s * usPerSecond := by
  rw [Clock.span, Nat.add_zero]

theorem makeDatetime_dateOf {t : Instant} (hy : (dateOf t).year ≤ 9999) (zone : Option Int) :
    makeDatetime (dateOf t) ⟨hourOf t, minuteOf t, secondOf t, 0⟩ zone =
      .ok ⟨wholeSecond t, zone⟩ := by
  have hv := dateOf_valid t
  have hord : ymd2ord (dateOf t) = t / usPerDay + 1 := (ord2ymd_spec (Nat.succ_pos _)).2
  simp only [makeDatetime, hv.year, hy, hv.month, hv.day, hourOf_lt, minuteOf_lt, secondOf_lt,
    and_self, not_true_eq_false, if_false, span_whole, hord]
  rw [Nat.add_sub_cancel, instant_split]

/-- What the writer prints, with the zone spelled out, reads back as the same second. -/
theorem fromisoformat_dateText {t : Instant} (hlo : 1000 ≤ (dateOf t).year)
    (hhi : (dateOf t).year ≤ 9999) :
    fromisoformat (dateText (natText (dateOf t).year) t ++ cp 'T' :: (clockText t ++ lit "+00:00")) =
      .ok ⟨wholeSecond t, some 0⟩ := by
  rw [natText_eq_padText hlo (by omega)]
  have hlen := dateText_length (padText_length 4 (dateOf t).year) t
  obtain ⟨h4, h5⟩ := getElem?_dateText (y := (dateOf t).year) t
    (cp 'T' :: (clockText t ++ lit "+00:00"))
  have hlong : ¬ (dateText (padText 4 (dateOf t).year) t ++
      cp 'T' :: (clockText t ++ lit "+00:00")).length < 7 := by
    simp only [List.length_append, hlen]
    omega
  have hsep : findIsoformatDatetimeSeparator (dateText (padText 4 (dateOf t).year) t ++
      cp 'T' :: (clockText t ++ lit "+00:00")) = some 10 := by
    have h7 : ¬ (dateText (padText 4 (dateOf t).year) t ++
        cp 'T' :: (clockText t ++ lit "+00:00")).length = 7 := by
      simp only [List.length_append, hlen]
      omega
    rw [findIsoformatDatetimeSeparator, if_neg h7, if_pos h4, if_neg h5]
  have htake : (dateText (padText 4 (dateOf t).year) t ++
      cp 'T' :: (clockText t ++ lit "+00:00")).take 10 = dateText (padText 4 (dateOf t).year) t := by
    rw [← hlen, List.take_left]
  have hdrop : (dateText (padText 4 (dateOf t).year) t ++
      cp 'T' :: (clockText t ++ lit "+00:00")).drop 11 = clockText t ++ lit "+00:00" := by
    rw [show 11 = (dateText (padText 4 (dateOf t).year) t).length + 1 by rw [hlen], List.drop_append]
    rfl
  have hne : clockText t ++ lit "+00:00" ≠ [] := by
    intro h
    have := congrArg List.length h
    simp [clockText_length] at this
  rw [fromisoformat, if_neg hlong, hsep]
  simp only [htake, parseIsoformatDate_dateText (by omega : (dateOf t).year < 10 ^ 4), hdrop,
    if_neg hne, parseIsoformatTime_utc]
  exact makeDatetime_dateOf hhi (some 0)

theorem wholeSecond_le (t : Instant) : wholeSecond t ≤ t := Nat.sub_le t _

/-- Instants before the end of time have a year of at most four digits. -/
theorem year_le {t : Nat} (h : t < maxInstant) : (dateOf t).year ≤ 9999 := by
  have hv := dateOf_valid t
  have hord : ymd2ord (dateOf t) = t / usPerDay + 1 := (ord2ymd_spec (Nat.succ_pos _)).2
  have hday : t / usPerDay < 3652059 := Nat.div_lt_of_lt_mul (by rwa [Nat.mul_comm])
  by_contra hcon
  have hyear : 3652059 ≤ daysBeforeYear (dateOf t).year := by
    simp only [daysBeforeYear]
    omega
  have hfirst := hv.day.1
  unfold ymd2ord at hord
  omega

theorem astimezone_utc {t : Nat} (h : t < maxInstant) : astimezone t 0 = .ok t := by
  have hin : (0 : Int) ≤ (t : Int) - 0 ∧ (t : Int) - 0 < maxInstant := by omega
  rw [astimezone, checkInstant, if_pos hin, Int.sub_zero, Int.toNat_natCast]

theorem checkInstant_ok {t : Int} {x : Nat} (h : checkInstant t = .ok x) : x < maxInstant := by
  unfold checkInstant at h
  split at h
  · rename_i hin
    have : t.toNat = x := Except.ok.inj h
    omega
  · cases h

theorem checkInstant_val {t : Int} {x : Nat} (h : checkInstant t = .ok x) : (x : Int) = t := by
  unfold checkInstant at h
  split at h
  · rename_i hin
    have : t.toNat = x := Except.ok.inj h
    omega
  · cases h

theorem separator_ge {s : Str} {loc : Nat} (h : findIsoformatDatetimeSeparator s = some loc) :
    7 ≤ loc := by
  unfold findIsoformatDatetimeSeparator at h
  dsimp only at h
  repeat' split at h
  all_goals first
    | (simp only [Option.some.injEq] at h; omega)
    | exact absurd h (by simp)

/-- The unpadded year of the first millennium does not read back. -/
theorem fromisoformat_short_year {year : Str} (h : year.length < 4) (t : Instant) (rest : Str) :
    fromisoformat (dateText year t ++ rest) = .error invalidIsoformat := by
  have hdigits : ∀ loc, 7 ≤ loc →
      parseIsoformatDate ((dateText year t ++ rest).take loc) = none := by
    intro loc hloc
    have htake : ((dateText year t ++ rest).take loc).take 4 = (dateText year t ++ rest).take 4 := by
      rw [List.take_take, Nat.min_eq_left (by omega)]
    have hmem : dash ∈ (dateText year t ++ rest).take 4 := by
      simp only [dateText, List.append_assoc, List.cons_append]
      rw [List.take_append]
      apply List.mem_append_right
      obtain ⟨k, hk⟩ : ∃ k, 4 - year.length = k + 1 := ⟨3 - year.length, by omega⟩
      rw [hk, List.take_succ_cons]
      exact List.mem_cons_self
    have hall : ((dateText year t ++ rest).take 4).all isDigit = false := by
      rw [List.all_eq_false]
      exact ⟨dash, hmem, by decide⟩
    have hnone : takeDigits 4 ((dateText year t ++ rest).take loc) = none := by
      simp only [takeDigits, htake, hall]
      simp
    rw [parseIsoformatDate, hnone]
  unfold fromisoformat
  split
  · rfl
  · cases hsep : findIsoformatDatetimeSeparator (dateText year t ++ rest) with
    | none => rfl
    | some loc => simp only [hdigits loc (separator_ge hsep)]

end Support.IsoTime
