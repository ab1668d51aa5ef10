import PatchLedger.Instant.Calendar

/-!
The calendar's two directions: a day's number gives a date that exists, and the
date gives the number back (`toDays_ofDays`); a date that exists is given back by
its number (`ofDays_toDays`). Years are counted from March, so the year of an era
is found by its days alone and the leap day comes last.
-/

namespace PatchLedger.Date

def daysOfEra (year : Nat) : Nat := 365 * year + year / 4 - year / 100

theorem yearOfEra_spec {d y : Nat} (h : d < 146097)
    (hy : y = (d - d / 1460 + d / 36524 - d / 146096) / 365) :
    y < 400 ∧ daysOfEra y ≤ d ∧ (d < daysOfEra (y + 1) ∨ d = 146096 ∧ y = 399) := by
  have century : d / 36524 < 4 ∨ d = 146096 := by omega
  unfold daysOfEra
  rcases century with century | rfl
  · have last : d / 146096 = 0 := by omega
    generalize hc : d / 36524 = c at *
    rw [last] at hy
    have hundred : y / 100 = c := by omega
    have low : 365 * y + y / 4 - y / 100 ≤ d := by omega
    refine ⟨by omega, low, Or.inl ?_⟩
    by_cases leap : y % 4 = 3
    · by_cases turn : y % 100 = 99
      · have next : (y + 1) / 100 = c + 1 := by omega
        have next : (y + 1) / 4 = 25 * (c + 1) := by omega
        have next : y = 100 * c + 99 := by omega
        omega
      · have next : (y + 1) / 100 = c := by omega
        omega
    · have next : (y + 1) / 4 = y / 4 := by omega
      have next : (y + 1) / 100 = c := by omega
      omega
  · have year : y = 399 := by rw [hy]
    subst year
    decide

theorem daysOfEra_succ (y : Nat) (h : y < 400) : daysOfEra (y + 1) ≤ daysOfEra y + 366 ∧
    (daysOfEra (y + 1) = daysOfEra y + 366 → isLeap (y + 1 : Nat)) := by
  unfold daysOfEra isLeap
  simp only [decide_eq_true_eq]
  omega

theorem daysBeforeMarch_era (era : Int) {y : Nat} (h : y < 400) :
    daysBeforeMarch (400 * era + y) = 146097 * era + daysOfEra y := by
  unfold daysBeforeMarch daysOfEra
  omega

def ofMarch (year : Int) (day : Nat) : Date :=
  let month := (5 * day + 2) / 153
  if month < 10 then ⟨year, month + 3, day - daysBeforeMonth month + 1⟩
  else ⟨year + 1, month - 9, day - daysBeforeMonth month + 1⟩

theorem ofDays_eq_ofMarch (days : Int) : ∃ (year : Int) (day : Nat),
    ofDays days = ofMarch year day ∧ days = marchOfYearZero + daysBeforeMarch year + day ∧
      day ≤ 365 ∧ (day = 365 → isLeap (year + 1)) := by
  let d := ((days - marchOfYearZero) % 146097).toNat
  let era := (days - marchOfYearZero) / 146097
  let y := (d - d / 1460 + d / 36524 - d / 146096) / 365
  have small : d < 146097 := by omega
  obtain ⟨inEra, low, high⟩ := yearOfEra_spec small (y := y) rfl
  obtain ⟨step, leap⟩ := daysOfEra_succ y inEra
  have split : days - marchOfYearZero = 146097 * era + d := by omega
  refine ⟨400 * era + y, d - daysOfEra y, ?_, ?_, ?_, ?_⟩
  · have form : 365 * y + y / 4 - y / 100 = daysOfEra y := rfl
    simp only [ofDays, ofMarch]
    rfl
  · rw [daysBeforeMarch_era era inEra]
    omega
  · rcases high with high | ⟨high, last⟩
    · omega
    · rw [last, high]
      decide
  · intro full
    rcases high with high | ⟨high, last⟩
    · have here := leap (by omega)
      unfold isLeap at here ⊢
      simp only [decide_eq_true_eq] at here ⊢
      omega
    · unfold isLeap
      simp only [decide_eq_true_eq]
      omega

theorem daysBeforeMonth_succ (year : Int) {month : Nat} (h : month < 11) :
    daysBeforeMonth (month + 1) =
      daysBeforeMonth month + daysInMonth year ((month + 2) % 12 + 1) := by
  match month with
  | 0 | 1 | 2 | 3 | 4 | 5 | 6 | 7 | 8 | 9 | 10 => rfl
  | month + 11 => omega

theorem daysBeforeMonth_le (day : Nat) : daysBeforeMonth ((5 * day + 2) / 153) ≤ day := by
  unfold daysBeforeMonth
  omega

theorem lt_daysBeforeMonth (day : Nat) : day < daysBeforeMonth ((5 * day + 2) / 153 + 1) := by
  unfold daysBeforeMonth
  omega

theorem toDays_ofMarch (year : Int) {day : Nat} (h : day ≤ 365) :
    (ofMarch year day).toDays = marchOfYearZero + daysBeforeMarch year + day := by
  have month : (5 * day + 2) / 153 < 12 := by omega
  have start := daysBeforeMonth_le day
  unfold ofMarch
  dsimp only
  split
  · next early =>
    have later : ¬ (5 * day + 2) / 153 + 3 ≤ 2 := by omega
    have place : ((5 * day + 2) / 153 + 3 + 9) % 12 = (5 * day + 2) / 153 := by omega
    simp only [toDays, if_neg later, place]
    omega
  · next late =>
    have winter : (5 * day + 2) / 153 - 9 ≤ 2 := by omega
    have place : ((5 * day + 2) / 153 - 9 + 9) % 12 = (5 * day + 2) / 153 := by omega
    simp only [toDays, if_pos winter, place, Int.add_sub_cancel]
    omega

theorem exists_ofMarch {year : Int} {day : Nat} (h : day ≤ 365)
    (leap : day = 365 → isLeap (year + 1)) : (ofMarch year day).Exists := by
  have last : (5 * day + 2) / 153 < 11 ∨ (5 * day + 2) / 153 = 11 := by omega
  have start := daysBeforeMonth_le day
  have next := lt_daysBeforeMonth day
  rcases last with inner | february
  · unfold ofMarch Exists
    dsimp only
    split
    · next early =>
      have length := daysBeforeMonth_succ year inner
      have month : ((5 * day + 2) / 153 + 2) % 12 + 1 = (5 * day + 2) / 153 + 3 := by omega
      rw [month] at length
      dsimp only
      omega
    · next late =>
      have length := daysBeforeMonth_succ (year + 1) inner
      have month : ((5 * day + 2) / 153 + 2) % 12 + 1 = (5 * day + 2) / 153 - 9 := by omega
      rw [month] at length
      dsimp only
      omega
  · have before : daysBeforeMonth 11 = 337 := rfl
    rw [february, before] at start
    unfold ofMarch Exists
    simp only [february, before, daysInMonth]
    by_cases full : day = 365
    · simp [full, leap full]
    · simp only [if_true, if_neg (show ¬ 11 < 10 by decide)]
      split <;> omega

theorem toDays_ofDays (days : Int) : (ofDays days).toDays = days := by
  obtain ⟨year, day, same, count, last, -⟩ := ofDays_eq_ofMarch days
  rw [same, toDays_ofMarch year last, count]

theorem exists_ofDays (days : Int) : (ofDays days).Exists := by
  obtain ⟨year, day, same, -, last, leap⟩ := ofDays_eq_ofMarch days
  rw [same]
  exact exists_ofMarch last leap

theorem daysInMonth_le (year : Int) (month : Nat) : daysInMonth year month ≤ 31 := by
  unfold daysInMonth
  split
  · split <;> omega
  · split <;> omega

theorem daysBeforeMarch_mono {a b : Int} (h : a ≤ b) : daysBeforeMarch a ≤ daysBeforeMarch b := by
  obtain ⟨k, rfl⟩ : ∃ k, b = a + k := ⟨b - a, by omega⟩
  have quarter : a / 4 ≤ (a + k) / 4 := by omega
  have century : (a + k) / 100 ≤ a / 100 + k := by omega
  have era : a / 400 ≤ (a + k) / 400 := by omega
  unfold daysBeforeMarch
  omega

theorem year_ofDays_bounds {days : Int} (first : -96465292 ≤ days) (last : days ≤ 95026236) :
    -262143 ≤ (ofDays days).year ∧ (ofDays days).year ≤ 262142 := by
  obtain ⟨year, day, same, count, fits, -⟩ := ofDays_eq_ofMarch days
  have low : year < -262144 → daysBeforeMarch year ≤ daysBeforeMarch (-262145) :=
    fun h => daysBeforeMarch_mono (by omega)
  have high : 262142 < year → daysBeforeMarch 262143 ≤ daysBeforeMarch year :=
    fun h => daysBeforeMarch_mono (by omega)
  have turn : year = -262144 ∨ year = 262142 ∨ year < -262144 ∨ 262142 < year ∨
      -262144 < year ∧ year < 262142 := by omega
  have lowest : daysBeforeMarch (-262145) = -95746496 := by decide
  have lower : daysBeforeMarch (-262144) = -95746130 := by decide
  have upper : daysBeforeMarch 262143 = 95745764 := by decide
  have border : daysBeforeMarch 262142 = 95745399 := by decide
  simp only [marchOfYearZero] at count
  rw [same]
  unfold ofMarch
  dsimp only
  split
  · dsimp only
    rcases turn with rfl | rfl | h | h | h <;> omega
  · dsimp only
    rcases turn with rfl | rfl | h | h | h <;> omega

theorem lt_daysBeforeMarch_succ {year : Int} {day : Nat} (h : day ≤ 365)
    (leap : day = 365 → isLeap (year + 1)) :
    daysBeforeMarch year + day < daysBeforeMarch (year + 1) := by
  unfold isLeap at leap
  unfold daysBeforeMarch
  simp only [decide_eq_true_eq] at leap
  omega

theorem month_of_day {month day : Nat} (low : daysBeforeMonth month ≤ day)
    (high : day < daysBeforeMonth (month + 1)) : (5 * day + 2) / 153 = month := by
  unfold daysBeforeMonth at low high
  omega

theorem ofMarch_place (year : Int) {month day : Nat} (one : 1 ≤ day)
    (fits : daysBeforeMonth month + day ≤ daysBeforeMonth (month + 1)) :
    ofMarch year (daysBeforeMonth month + day - 1) =
      if month < 10 then ⟨year, month + 3, day⟩ else ⟨year + 1, month - 9, day⟩ := by
  have found : (5 * (daysBeforeMonth month + day - 1) + 2) / 153 = month :=
    month_of_day (by omega) (by omega)
  have back : daysBeforeMonth month + day - 1 - daysBeforeMonth month + 1 = day := by omega
  simp only [ofMarch, found, back]

theorem day_le_of_exists {date : Date} (h : date.Exists) :
    daysBeforeMonth ((date.month + 9) % 12) + date.day ≤
        daysBeforeMonth ((date.month + 9) % 12 + 1) ∧
      (daysBeforeMonth ((date.month + 9) % 12) + date.day ≤ 365 ∨
        daysBeforeMonth ((date.month + 9) % 12) + date.day = 366 ∧ date.month = 2 ∧
          isLeap date.year) := by
  obtain ⟨first, last, one, fits⟩ := h
  by_cases february : date.month = 2
  · have before : daysBeforeMonth 11 = 337 := rfl
    have after : daysBeforeMonth 12 = 367 := rfl
    rw [february, daysInMonth, if_pos rfl] at fits
    rw [february, before, after]
    split at fits
    · next leap =>
      rcases Nat.lt_or_eq_of_le fits with short | full
      · exact ⟨by omega, Or.inl (by omega)⟩
      · exact ⟨by omega, Or.inr ⟨by omega, rfl, leap⟩⟩
    · exact ⟨by omega, Or.inl (by omega)⟩
  · have inner : (date.month + 9) % 12 < 11 := by omega
    have same : ((date.month + 9) % 12 + 2) % 12 + 1 = date.month := by omega
    have length := daysBeforeMonth_succ date.year inner
    have early : daysBeforeMonth ((date.month + 9) % 12 + 1) ≤ 337 := by
      unfold daysBeforeMonth
      omega
    rw [same] at length
    exact ⟨by omega, Or.inl (by omega)⟩

theorem exists_eq_ofMarch {date : Date} (h : date.Exists) : ∃ (year : Int) (day : Nat),
    date = ofMarch year day ∧ day ≤ 365 ∧ (day = 365 → isLeap (year + 1)) := by
  obtain ⟨room, last⟩ := day_le_of_exists h
  obtain ⟨year, month, day⟩ := date
  obtain ⟨first, twelve, one, -⟩ := h
  dsimp only at room last first twelve one
  -- January and February belong to the year that began in the March before
  by_cases winter : month ≤ 2
  · have back : (month + 9) % 12 - 9 = month := by omega
    refine ⟨year - 1, daysBeforeMonth ((month + 9) % 12) + day - 1, ?_, by omega, fun full => ?_⟩
    · rw [ofMarch_place (year - 1) one room, if_neg (by omega), back, Int.sub_add_cancel]
    · rw [Int.sub_add_cancel]
      exact (last.resolve_left (by omega)).2.2
  · have back : (month + 9) % 12 + 3 = month := by omega
    refine ⟨year, daysBeforeMonth ((month + 9) % 12) + day - 1, ?_, by omega, by omega⟩
    rw [ofMarch_place year one room, if_pos (by omega), back]

theorem ofDays_toDays {date : Date} (h : date.Exists) : ofDays date.toDays = date := by
  obtain ⟨year, day, rfl, fits, leap⟩ := exists_eq_ofMarch h
  obtain ⟨year', day', same, count, fits', leap'⟩ := ofDays_eq_ofMarch (ofMarch year day).toDays
  rw [toDays_ofMarch year fits] at count
  have here := lt_daysBeforeMarch_succ fits leap
  have there := lt_daysBeforeMarch_succ fits' leap'
  have below : year < year' → daysBeforeMarch (year + 1) ≤ daysBeforeMarch year' :=
    fun h => daysBeforeMarch_mono (by omega)
  have above : year' < year → daysBeforeMarch (year' + 1) ≤ daysBeforeMarch year :=
    fun h => daysBeforeMarch_mono (by omega)
  have years : year' = year := by omega
  subst years
  have days : day' = day := by omega
  rw [same, days]

theorem toDays_bounds {date : Date} (h : date.Exists) (first : -262143 ≤ date.year)
    (last : date.year ≤ 262142) : -96465292 ≤ date.toDays ∧ date.toDays ≤ 95026236 := by
  obtain ⟨one, twelve, start, fits⟩ := h
  have month := daysInMonth_le date.year date.month
  have lower : daysBeforeMarch (-262144) = -95746130 := by decide
  have low : daysBeforeMarch (-262143) = -95745765 := by decide
  have upper : daysBeforeMarch 262142 = 95745399 := by decide
  have high : daysBeforeMarch 262141 = 95745034 := by decide
  unfold toDays
  dsimp only
  split
  · have before := daysBeforeMarch_mono (show -262144 ≤ date.year - 1 by omega)
    have after := daysBeforeMarch_mono (show date.year - 1 ≤ 262141 by omega)
    simp only [marchOfYearZero, daysBeforeMonth]
    omega
  · have before := daysBeforeMarch_mono first
    have after := daysBeforeMarch_mono last
    simp only [marchOfYearZero, daysBeforeMonth]
    omega

end PatchLedger.Date
