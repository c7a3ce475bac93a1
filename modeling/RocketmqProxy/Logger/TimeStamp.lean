import RocketmqProxy.Logger

/-!
# Time stamps of entries

`getTime` adds eight hours to the clock, takes the fields of the sum in the zone of the
host, and writes them with the offset `+0800`.  Read back, its text denotes the clock value
exactly on a host whose zone is UTC, and it is too long for its buffer on every host.
-/

namespace RocketmqProxy

/-! ## Reading a time stamp -/

/-- The instant that a text `year-month-dayThour:minute:second.millis+hhmm` denotes, in
milliseconds. -/
def readTime (text : String) : Option Int := do
  let (year, s) ← Decimal.intField '-' text.toList
  let (month, s) ← Decimal.field '-' s
  let (day, s) ← Decimal.field 'T' s
  let (hour, s) ← Decimal.field ':' s
  let (minute, s) ← Decimal.field ':' s
  let (second, s) ← Decimal.field '.' s
  let (millis, s) ← Decimal.field '+' s
  let offset ← Decimal.value s
  if 1 ≤ month ∧ hour < 24 ∧ minute < 60 ∧ second < 60 ∧ millis < 1000 then
    let date ← Gregorian.Date.ofParts year (month - 1) day
    let time : Int := date.toDays * 86400 + hour * 3600 + minute * 60 + second
    some (1000 * (time - (offset / 100 * 3600 + offset % 100 * 60 : Nat)) + millis)
  else none

/-! ## What `getTime` writes -/

theorem toList_timeText (ltm : Tm) :
    (timeText ltm).toList = (toString (1900 + ltm.tmYear)).toList ++ '-' ::
      (Decimal.pad 2 (1 + ltm.tmMon) ++ '-' :: (Decimal.pad 2 ltm.tmMday ++ 'T' ::
        (Decimal.pad 2 ltm.tmHour ++ ':' :: (Decimal.pad 2 ltm.tmMin ++ ':' ::
          (Decimal.pad 2 ltm.tmSec ++ '.' :: (Decimal.pad 3 0 ++ '+' :: Decimal.pad 4 800)))))) := by
  have htail : ".000+0800".toList = '.' :: (Decimal.pad 3 0 ++ '+' :: Decimal.pad 4 800) := by
    decide
  simp only [timeText, twoDigits, String.toList_append, String.toList_ofList, htail,
    List.append_assoc]
  rfl

/-- What `sprintf` writes, the zero included, is longer than the buffer. -/
theorem timeText_overflows (ltm : Tm) : timeBufferSize < (timeText ltm).length + 1 := by
  have hlen (n : Nat) : 2 ≤ (twoDigits n).length := by
    rw [twoDigits, String.length_ofList]
    exact Decimal.le_length_pad 2 n
  have hyear := Decimal.toString_length_pos (1900 + ltm.tmYear)
  have hmon := hlen (1 + ltm.tmMon)
  have hday := hlen ltm.tmMday
  have hhour := hlen ltm.tmHour
  have hmin := hlen ltm.tmMin
  have hsec := hlen ltm.tmSec
  have hdash : "-".length = 1 := rfl
  have hT : "T".length = 1 := rfl
  have hcolon : ":".length = 1 := rfl
  have htail : ".000+0800".length = 9 := rfl
  simp only [timeText, String.length_append, timeBufferSize]
  omega

theorem readTime_eq {text : String} {year : Int}
    {month day hour minute second millis offset : Nat} {s₁ s₂ s₃ s₄ s₅ s₆ s₇ : List Char}
    {date : Gregorian.Date} (hyear : Decimal.intField '-' text.toList = some (year, s₁))
    (hmonth : Decimal.field '-' s₁ = some (month, s₂))
    (hday : Decimal.field 'T' s₂ = some (day, s₃))
    (hhour : Decimal.field ':' s₃ = some (hour, s₄))
    (hminute : Decimal.field ':' s₄ = some (minute, s₅))
    (hsecond : Decimal.field '.' s₅ = some (second, s₆))
    (hmillis : Decimal.field '+' s₆ = some (millis, s₇))
    (hoffset : Decimal.value s₇ = some offset)
    (hranges : 1 ≤ month ∧ hour < 24 ∧ minute < 60 ∧ second < 60 ∧ millis < 1000)
    (hdate : Gregorian.Date.ofParts year (month - 1) day = some date) :
    readTime text = some (1000 * (date.toDays * 86400 + hour * 3600 + minute * 60 + second -
      (offset / 100 * 3600 + offset % 100 * 60 : Nat)) + millis) := by
  rw [readTime, hyear]
  simp only [Option.bind_eq_bind, Option.bind_some, hmonth, hday, hhour, hminute, hsecond,
    hmillis, hoffset, if_pos hranges, hdate]

/-- Fields of a date and a time are read back as they were written. -/
theorem readTime_timeText {ltm : Tm} {date : Gregorian.Date}
    (hdate : Gregorian.Date.ofParts (1900 + ltm.tmYear) (1 + ltm.tmMon - 1) ltm.tmMday =
      some date)
    (hhour : ltm.tmHour < 24) (hmin : ltm.tmMin < 60) (hsec : ltm.tmSec < 60) :
    readTime (timeText ltm) = some (1000 * (date.toDays * 86400 + ltm.tmHour * 3600 +
      ltm.tmMin * 60 + ltm.tmSec - 28800)) := by
  have hyear := @Decimal.intField_toString '-' rfl (1900 + ltm.tmYear)
  have hdash := @Decimal.field_pad '-' rfl 2
  have hT := @Decimal.field_pad 'T' rfl 2
  have hcolon := @Decimal.field_pad ':' rfl 2
  have hdot := @Decimal.field_pad '.' rfl 2
  have hplus := @Decimal.field_pad '+' rfl 3
  rw [readTime_eq (by rw [toList_timeText]; exact hyear _) (hdash _ _) (hT _ _) (hcolon _ _)
    (hcolon _ _) (hdot _ _) (hplus 0 _) (Decimal.value_pad 4 800)
    ⟨Nat.le_add_right 1 _, hhour, hmin, hsec, by decide⟩ hdate]
  refine congrArg some ?_
  omega

theorem localtime_ranges (zone now : Int) : (localtime zone now).tmHour < 24 ∧
    (localtime zone now).tmMin < 60 ∧ (localtime zone now).tmSec < 60 := by
  have hsec := Int.emod_lt_of_pos (now + zone) (show (0 : Int) < 86400 by decide)
  simp only [localtime]
  omega

theorem localtime_date (zone now : Int) :
    Gregorian.Date.ofParts (1900 + (localtime zone now).tmYear)
      (1 + (localtime zone now).tmMon - 1) (localtime zone now).tmMday =
    some (Gregorian.Date.ofDays ((now + zone) / 86400)) := by
  simp only [localtime]
  rw [add_sub_cancel, Nat.add_sub_cancel_left, Gregorian.Date.ofParts_eq]

/-- The fields of `localtime` add up to the seconds of its zone. -/
theorem localtime_seconds (zone now : Int) :
    (Gregorian.Date.ofDays ((now + zone) / 86400)).toDays * 86400 +
      (localtime zone now).tmHour * 3600 + (localtime zone now).tmMin * 60 +
        (localtime zone now).tmSec = now + zone := by
  have hsec := Int.emod_nonneg (now + zone) (show (86400 : Int) ≠ 0 by decide)
  rw [Gregorian.Date.toDays_ofDays]
  simp only [localtime]
  omega

theorem readTime_localtime (zone now : Int) :
    readTime (timeText (localtime zone now)) = some (1000 * (now + zone - 28800)) := by
  obtain ⟨hhour, hmin, hsec⟩ := localtime_ranges zone now
  rw [readTime_timeText (localtime_date zone now) hhour hmin hsec, localtime_seconds]

/-! ## The two requirements -/

/-- The text that is written at the time `now`, with its zero, fits its buffer. -/
def Fits (zone now : Int) : Prop :=
  (timeText (localtime zone (now + 28800))).length + 1 ≤ timeBufferSize

/-- Read back, the text denotes the clock value. -/
def Denotes (zone now : Int) : Prop := readTime (getTime zone now "") = some (1000 * now)

theorem denotes_iff (zone now : Int) : Denotes zone now ↔ zone = 0 := by
  rw [Denotes, getTime, String.empty_append, readTime_localtime, Option.some.injEq]
  omega

/-- The buffer is too short at every time and in every zone, and the text denotes the clock
value only in UTC. -/
theorem timeStamp_overflows (zone now : Int) :
    ¬ (Fits zone now ∧ Denotes zone now) ∧ (Denotes zone now ↔ zone = 0) :=
  ⟨fun h => absurd h.1 (not_le_of_gt (timeText_overflows _)), denotes_iff zone now⟩

/-- The calendar year of the local time has four digits. -/
def FourDigitYear (zone now : Int) : Prop :=
  1000 ≤ 1900 + (localtime zone now).tmYear ∧ 1900 + (localtime zone now).tmYear ≤ 9999

/-- A host in UTC, one second into 1970. -/
theorem timeStamp_too_long : ¬ ∀ zone now, FourDigitYear zone now →
    Fits zone now ∧ Denotes zone now := by
  intro hall
  exact absurd (hall 0 1 (by rw [FourDigitYear]; decide)).1 (by rw [Fits]; decide)

end RocketmqProxy
