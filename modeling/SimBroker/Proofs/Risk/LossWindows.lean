import Mathlib.Data.List.DropRight
import Mathlib.Data.List.Pairwise
import SimBroker.Proofs.Instant.Week
import SimBroker.Proofs.Risk.Monitor

/-!
# The windows of losses

Losses are added up over the current day and over the current ISO week.  Both windows turn in the
same way: a call that is not in the period of the call before it begins another window, with the
equity in force.  So a window is that of the last calls in a row in one period.  While the clock
goes forward these are all the calls of the date, or of the week.  When the clock steps back to
another date, though, the window begins anew, and the losses of the later date are no longer in it.

## Main definitions

* `DrawdownMonitor.Period`, `DrawdownMonitor.Window`: a day or a week, and what is held for it
* `DrawdownMonitor.Window.Keeps`, `DrawdownMonitor.Window.Begins`: what becomes of a window
* `DrawdownMonitor.lastRow`, `DrawdownMonitor.beforeRow`: the last calls in a row in a period, and
  the calls before them
* `DrawdownMonitor.Window.Shows`: a window is that of the last calls in a row in its period

## Main results

* `DrawdownMonitor.window_perform`: what a call does to a window
* `DrawdownMonitor.Window.Shows.perform`, `DrawdownMonitor.shows_runCalls`: what a window is after a
  call, and after a run
* `DrawdownMonitor.rows_of_forward_clock`: on such a clock the last row has all calls of its period
* `DrawdownMonitor.total_of_forward_clock`, `DrawdownMonitor.windows_of_forward_clock`: the windows
  while the clock does not go back
* `DrawdownMonitor.windows_of_any_clock`: the windows whatever the clock does
-/

namespace SimBroker

open Calc (bind_eq_ok pure_eq_ok)

/-! ## The last row of a list -/

section LastRow

variable {α : Type} {f : α → ℤ} {n : ℤ} {l : List α}

/-- Where numbers do not decrease, those that equal a bound of them all stand at the end. -/
theorem rtakeWhile_eq_filter (hmono : l.Pairwise (f · ≤ f ·)) (hle : ∀ x ∈ l, f x ≤ n) :
    l.rtakeWhile (f · = n) = l.filter (f · = n) ∧
      l.rdropWhile (f · = n) = l.takeWhile (f · ≠ n) := by
  have hrow : ∀ x ∈ l.rtakeWhile (f · = n), f x = n := fun x hx =>
    of_decide_eq_true (List.mem_rtakeWhile_imp (p := fun x => decide (f x = n)) hx)
  have hbefore : ∀ x ∈ l.rdropWhile (f · = n), f x ≠ n := by
    intro x hx
    -- the last one before the row is below the bound, and the others are not above it
    have hinitial : l.rdropWhile (f · = n) <+: l := List.rdropWhile_prefix ..
    have hne := List.ne_nil_of_mem hx
    have hlast := List.rdropWhile_last_not _ _ hne
    have hlast_le := hle _ (hinitial.subset (List.getLast_mem hne))
    have hx_le :=
      (hmono.sublist hinitial.sublist).rel_getLast_of_rel_getLast_getLast hx (Int.le_refl _)
    rw [decide_eq_true_iff] at hlast
    omega
  have hsplit : l.rdropWhile (f · = n) ++ l.rtakeWhile (f · = n) = l :=
    List.rdropWhile_append_rtakeWhile
  generalize l.rdropWhile (f · = n) = before at hbefore hsplit ⊢
  generalize l.rtakeWhile (f · = n) = row at hrow hsplit ⊢
  subst hsplit
  have hbefore_none : before.filter (f · = n) = [] :=
    List.filter_eq_nil_iff.mpr fun x hx h => hbefore x hx (of_decide_eq_true h)
  have hrow_all : row.filter (f · = n) = row :=
    List.filter_eq_self.mpr fun x hx => decide_eq_true (hrow x hx)
  have hstop : row.takeWhile (f · ≠ n) = [] := by
    cases row with
    | nil => rfl
    | cons x row =>
      rw [List.takeWhile_cons_of_neg]
      simp [hrow x List.mem_cons_self]
  rw [List.filter_append, hbefore_none, hrow_all, List.nil_append,
    List.takeWhile_append_of_pos fun x hx => decide_eq_true (hbefore x hx), hstop, List.append_nil]
  exact ⟨rfl, rfl⟩

end LastRow

namespace DrawdownMonitor

variable {m m' : DrawdownMonitor} {c last : Call} {calls : List Call} {start equity : Decimal}
  {begin now : Instant}

/-! ## Periods and windows -/

/-- A period over which losses are added up. -/
inductive Period where
  | day
  | week

namespace Period

variable {p : Period} {a b : Instant}

/-- The number of the period that an instant is in. -/
def number : Period → Instant → ℤ
  | day => Instant.day
  | week => Instant.week

/-- On the same date, or in the same ISO week. -/
def Same (p : Period) (a b : Instant) : Prop :=
  match p with
  | day => a.date = b.date
  | week => a.isoWeek = b.isoWeek

instance (p : Period) (a b : Instant) : Decidable (p.Same a b) :=
  match p with
  | day => inferInstanceAs (Decidable (a.date = b.date))
  | week => inferInstanceAs (Decidable (a.isoWeek = b.isoWeek))

theorem same_iff : p.Same a b ↔ p.number a = p.number b := by
  cases p with
  | day => exact Instant.date_eq_iff
  | week => exact Instant.isoWeek_eq_iff

theorem number_le_number (p : Period) (h : a ≤ b) : p.number a ≤ p.number b := by
  cases p with
  | day => exact Instant.day_le_day h
  | week => exact Instant.week_le_week h

end Period

variable {p : Period}

/-- What is held for a period: its number, the equity when it began, and the profit since. -/
structure Window where
  number : ℤ
  start : Decimal
  pnl : Decimal

/-- The window of the current day or week. -/
def window (m : DrawdownMonitor) : Period → Window
  | .day => ⟨m.day, m.dailyStartEquity, m.dailyPnl⟩
  | .week => ⟨m.week, m.weeklyStartEquity, m.weeklyPnl⟩

namespace Window

/-- The window for a period: as it is if that is its own, else one that begins with an equity. -/
def turned (w : Window) (number : ℤ) (equity : Decimal) : Window :=
  if number = w.number then w else ⟨number, equity, 0⟩

/-- The window goes on, and results are added to it. -/
structure Keeps (w : Window) (results : List Decimal) (w' : Window) : Prop where
  start_eq : w'.start = w.start
  foldlM_eq : results.foldlM Decimal.add w.pnl = .ok w'.pnl

/-- A window begins with an equity and results. -/
structure Begins (equity : Decimal) (results : List Decimal) (w' : Window) : Prop where
  start_eq : w'.start = equity
  total_eq : Decimal.total results = .ok w'.pnl

end Window

theorem window_roll (m : DrawdownMonitor) (now : Instant) (p : Period) :
    (m.roll now).window p = (m.window p).turned (p.number now) m.currentEquity := by
  -- a day and a week turn without each other
  cases p with
  | day =>
    have hweek (m : DrawdownMonitor) (n : ℤ) : (m.rollWeek n).window .day = m.window .day := by
      unfold rollWeek
      split <;> rfl
    rw [roll, hweek]
    exact apply_ite (window · .day) ..
  | week =>
    have hday (n : ℤ) : (m.rollDay n).window .week = m.window .week ∧
        (m.rollDay n).currentEquity = m.currentEquity := by
      unfold rollDay
      split <;> exact ⟨rfl, rfl⟩
    obtain ⟨hwindow, hequity⟩ := hday now.day
    rw [← hwindow, ← hequity]
    exact apply_ite (window · .week) ..

/-! ## What a call does -/

theorem number_turned (w : Window) (n : ℤ) (equity : Decimal) : (w.turned n equity).number = n := by
  unfold Window.turned
  split
  · next heq => exact heq.symm
  · rfl

/-- A new equity changes the windows only as the clock does. -/
theorem window_update (h : m.update equity now = .ok m') (p : Period) :
    m'.window p = (m.roll now).window p := by
  obtain ⟨drawdown, -, h⟩ := bind_eq_ok.mp h
  obtain rfl := pure_eq_ok.mp h
  rw [apply_ite (window · p)]
  cases p with
  | day => exact ite_self _
  | week => exact ite_self _

/-- A result is added to both windows, once the clock has turned them. -/
theorem window_recordPnl {pnl : Decimal} (h : m.recordPnl pnl now = .ok m') (p : Period) :
    ∃ sum, ((m.roll now).window p).pnl.add pnl = .ok sum ∧
      m'.window p = { (m.roll now).window p with pnl := sum } := by
  obtain ⟨daily, hdaily, h⟩ := bind_eq_ok.mp h
  obtain ⟨weekly, hweekly, h⟩ := bind_eq_ok.mp h
  obtain rfl := pure_eq_ok.mp h
  cases p with
  | day => exact ⟨daily, hdaily, rfl⟩
  | week => exact ⟨weekly, hweekly, rfl⟩

/-- A call turns the window to the period that it is in, and adds its result. -/
theorem window_perform (h : m.perform c = .ok m') (p : Period) :
    (m'.window p).number = p.number c.time ∧
      ((m.window p).turned (p.number c.time) m.currentEquity).Keeps (results [c])
        (m'.window p) := by
  cases c with
  | update equity now =>
    rw [window_update h p, window_roll]
    exact ⟨number_turned .., rfl, rfl⟩
  | recordPnl pnl now =>
    obtain ⟨sum, hsum, hwindow⟩ := window_recordPnl h p
    rw [window_roll] at hsum hwindow
    rw [hwindow]
    refine ⟨number_turned .., rfl, ?_⟩
    exact (bind_pure _).trans hsum

/-! ## What a run does -/

/-- The time that the clock shows after some calls: that of the last, else the one before them. -/
def clockAfter (begin : Instant) (calls : List Call) : Instant :=
  (calls.getLast?.map Call.time).getD begin

theorem clockAfter_concat (begin : Instant) (calls : List Call) (c : Call) :
    clockAfter begin (calls ++ [c]) = c.time := by
  rw [clockAfter, List.getLast?_append]
  rfl

/-- The last calls in a row that are in the period of an instant. -/
def lastRow (p : Period) (t : Instant) (calls : List Call) : List Call :=
  calls.rtakeWhile (p.Same ·.time t)

/-- The calls before the last ones in a row that are in the period of an instant. -/
def beforeRow (p : Period) (t : Instant) (calls : List Call) : List Call :=
  calls.rdropWhile (p.Same ·.time t)

theorem rows_concat (p : Period) (calls : List Call) (c : Call) :
    lastRow p c.time (calls ++ [c]) = lastRow p c.time calls ++ [c] ∧
      beforeRow p c.time (calls ++ [c]) = beforeRow p c.time calls := by
  have hsame : decide (p.Same c.time c.time) = true := decide_eq_true (Period.same_iff.mpr rfl)
  exact ⟨List.rtakeWhile_concat_pos _ _ c hsame, List.rdropWhile_concat_pos _ _ c hsame⟩

/-- Rows are the same for instants of one period. -/
theorem rows_of_same {s t : Instant} (h : p.Same s t) (calls : List Call) :
    lastRow p s calls = lastRow p t calls ∧ beforeRow p s calls = beforeRow p t calls := by
  have hsame : (fun c : Call => decide (p.Same c.time s)) = fun c => decide (p.Same c.time t) := by
    funext c
    rw [decide_eq_decide, Period.same_iff, Period.same_iff, Period.same_iff.mp h]
  unfold lastRow beforeRow
  rw [hsame]
  exact ⟨rfl, rfl⟩

/-- There is no row of calls in another period than the one that the clock shows. -/
theorem rows_of_not_same {t : Instant} (h : ¬ p.Same t (clockAfter begin calls)) :
    lastRow p t calls = [] ∧ beforeRow p t calls = calls := by
  -- the clock shows the time of the last call, which is then not in the period either
  have hlast (hne : calls ≠ []) : ¬ decide (p.Same (calls.getLast hne).time t) = true := by
    rw [clockAfter, List.getLast?_eq_some_getLast hne, Period.same_iff] at h
    rw [decide_eq_true_iff, Period.same_iff]
    exact fun heq => h heq.symm
  exact ⟨List.rtakeWhile_eq_nil_iff.mpr hlast, List.rdropWhile_eq_self_iff.mpr hlast⟩

/-- A window is that of the last calls in a row in its period: it holds the total of their results,
and it began with the equity in force before them. -/
structure Window.Shows (w : Window) (p : Period) (start : Decimal) (begin : Instant)
    (calls : List Call) : Prop where
  number_eq : w.number = p.number (clockAfter begin calls)
  start_eq : w.start = equityAfter start (beforeRow p (clockAfter begin calls) calls)
  total_eq : Decimal.total (results (lastRow p (clockAfter begin calls) calls)) = .ok w.pnl

namespace Window

variable {w w' : Window}

theorem shows_new (p : Period) (start : Decimal) (begin : Instant) :
    ((new start begin).window p).Shows p start begin [] := by
  cases p with
  | day => exact ⟨rfl, rfl, rfl⟩
  | week => exact ⟨rfl, rfl, rfl⟩

namespace Shows

/-- A call in the period of the window goes on with it, and another call begins a window. -/
theorem keeps_or_begins (h : (m.window p).Shows p start begin calls)
    (hcall : m.perform c = .ok m') :
    (p.Same c.time (clockAfter begin calls) → (m.window p).Keeps (results [c]) (m'.window p)) ∧
      (¬ p.Same c.time (clockAfter begin calls) →
        Begins m.currentEquity (results [c]) (m'.window p)) := by
  obtain ⟨-, hkeeps⟩ := window_perform hcall p
  rw [Period.same_iff, ← h.number_eq]
  constructor
  · intro hsame
    rw [turned, if_pos hsame] at hkeeps
    exact hkeeps
  · intro hother
    rw [turned, if_neg hother] at hkeeps
    exact ⟨hkeeps.start_eq, hkeeps.foldlM_eq⟩

/-- A call keeps the window that of the last calls in a row in its period. -/
theorem perform (h : (m.window p).Shows p start begin calls)
    (hequity : m.currentEquity = equityAfter start calls) (hcall : m.perform c = .ok m') :
    (m'.window p).Shows p start begin (calls ++ [c]) := by
  obtain ⟨hkeeps, hbegins⟩ := h.keeps_or_begins hcall
  obtain ⟨hlast, hbefore⟩ := rows_concat p calls c
  obtain ⟨hnumber, -⟩ := window_perform hcall p
  by_cases hsame : p.Same c.time (clockAfter begin calls)
  · -- the row goes on, and the window with it
    obtain ⟨hstart, htotal⟩ := hkeeps hsame
    obtain ⟨hrow, hrest⟩ := rows_of_same hsame calls
    refine ⟨?_, ?_, ?_⟩ <;> rw [clockAfter_concat]
    · exact hnumber
    · rw [hbefore, hrest, hstart, h.start_eq]
    · rw [hlast, hrow, results_append, Decimal.total, List.foldlM_append]
      exact (congrArg (· >>= _) h.total_eq).trans htotal
  · -- the call begins another row, and another window
    obtain ⟨hstart, htotal⟩ := hbegins hsame
    obtain ⟨hrow, hrest⟩ := rows_of_not_same hsame
    refine ⟨?_, ?_, ?_⟩ <;> rw [clockAfter_concat]
    · exact hnumber
    · rw [hbefore, hrest, hstart, hequity]
    · rw [hlast, hrow]
      exact htotal

end Shows

end Window

/-- Along every run a window is that of the last calls in a row in its period. -/
theorem shows_runCalls (h : (new start begin).runCalls calls = .ok m) (p : Period) :
    (m.window p).Shows p start begin calls := by
  -- from the end of the run, because the last call says which period is the current one
  induction calls using List.reverseRecOn generalizing m with
  | nil =>
    obtain rfl := pure_eq_ok.mp h
    exact Window.shows_new p start begin
  | append_singleton calls c ih =>
    obtain ⟨m₁, hcalls, hcall⟩ := runCalls_concat.mp h
    exact (ih hcalls).perform (currentEquity_runCalls hcalls) hcall

/-! ## A clock that does not go back -/

section ForwardClock

variable (hclock : (begin :: (calls ++ [last]).map Call.time).Pairwise (· ≤ ·)) (p : Period)

include hclock

theorem number_mem_of_forward_clock (hc : c ∈ calls ++ [last]) :
    p.number begin ≤ p.number c.time ∧ p.number c.time ≤ p.number last.time := by
  obtain ⟨hbegin, htimes⟩ := List.pairwise_cons.mp hclock
  -- the clock began before all calls, and the last call comes after all others
  refine ⟨p.number_le_number (hbegin c.time (List.mem_map_of_mem hc)), ?_⟩
  rcases List.mem_append.mp hc with hc | hc
  · have horder := List.pairwise_append.mp (List.pairwise_map.mp htimes)
    exact p.number_le_number (horder.2.2 c hc last (List.mem_singleton_self last))
  · obtain rfl := List.mem_singleton.mp hc
    exact Int.le_refl _

/-- The calls of the current period are the last ones in a row. -/
theorem rows_of_forward_clock :
    lastRow p last.time (calls ++ [last]) = (calls ++ [last]).filter (p.Same ·.time last.time) ∧
      beforeRow p last.time (calls ++ [last]) =
        (calls ++ [last]).takeWhile (¬ p.Same ·.time last.time) := by
  have htimes := List.pairwise_map.mp (List.pairwise_cons.mp hclock).2
  have hrows := rtakeWhile_eq_filter (htimes.imp (p.number_le_number ·)) fun c hc =>
    (number_mem_of_forward_clock hclock p hc).2
  simp only [ne_eq, ← Period.same_iff] at hrows
  exact hrows

/-- In the period that the clock began in there is no other call. -/
theorem beforeRow_eq_nil (hsame : p.Same begin last.time) :
    beforeRow p last.time (calls ++ [last]) = [] := by
  refine List.rdropWhile_eq_nil_iff.mpr fun c hc => decide_eq_true ?_
  obtain ⟨hbegin, hlast⟩ := number_mem_of_forward_clock hclock p hc
  rw [Period.same_iff] at hsame ⊢
  omega

/-- A window is that of all calls in its period. -/
theorem window_of_forward_clock (hrun : (new start begin).runCalls (calls ++ [last]) = .ok m) :
    Decimal.total (results ((calls ++ [last]).filter (p.Same ·.time last.time))) =
        .ok (m.window p).pnl ∧
      (m.window p).start =
        equityAfter start ((calls ++ [last]).takeWhile (¬ p.Same ·.time last.time)) ∧
      (p.Same begin last.time → (m.window p).start = start) := by
  obtain ⟨-, hstart, htotal⟩ := shows_runCalls hrun p
  obtain ⟨hlast, hbefore⟩ := rows_of_forward_clock hclock p
  rw [clockAfter_concat] at hstart htotal
  rw [hlast] at htotal
  refine ⟨htotal, hbefore ▸ hstart, fun hsame => ?_⟩
  rw [hstart, beforeRow_eq_nil hclock p hsame]
  rfl

end ForwardClock

/-- On such a clock a window holds the total of all results in its period, also before any call. -/
theorem total_of_forward_clock (hrun : (new start begin).runCalls calls = .ok m)
    (hclock : (begin :: calls.map Call.time).Pairwise (· ≤ ·)) (p : Period) :
    Decimal.total (results (calls.filter (p.number ·.time = (m.window p).number))) =
      .ok (m.window p).pnl := by
  rcases List.eq_nil_or_concat calls with rfl | ⟨calls, last, rfl⟩
  · exact (shows_runCalls hrun p).total_eq
  · rw [List.concat_eq_append] at hrun hclock ⊢
    obtain ⟨htotal, -⟩ := window_of_forward_clock hclock p hrun
    simp only [Period.same_iff] at htotal
    rw [(shows_runCalls hrun p).number_eq, clockAfter_concat]
    exact htotal

/-- While the clock does not go back, the profit of the day is the total of all results of the date
and that of the week the total of all results of the ISO week.  Each began with the equity in force
before its first call, which is the one at the beginning if the clock began in it. -/
theorem windows_of_forward_clock (start : Decimal) (begin : Instant) {calls : List Call}
    {last : Call} (hrun : (new start begin).runCalls (calls ++ [last]) = .ok m)
    (hclock : (begin :: (calls ++ [last]).map Call.time).Pairwise (· ≤ ·)) :
    (Decimal.total (results ((calls ++ [last]).filter (·.time.date = last.time.date))) =
        .ok m.dailyPnl ∧
      m.dailyStartEquity =
        equityAfter start ((calls ++ [last]).takeWhile (·.time.date ≠ last.time.date)) ∧
      (begin.date = last.time.date → m.dailyStartEquity = start)) ∧
    Decimal.total (results ((calls ++ [last]).filter (·.time.isoWeek = last.time.isoWeek))) =
        .ok m.weeklyPnl ∧
      m.weeklyStartEquity =
        equityAfter start ((calls ++ [last]).takeWhile (·.time.isoWeek ≠ last.time.isoWeek)) ∧
      (begin.isoWeek = last.time.isoWeek → m.weeklyStartEquity = start) :=
  ⟨window_of_forward_clock hclock .day hrun, window_of_forward_clock hclock .week hrun⟩

/-- Noon of the last Sunday of 2024. -/
def lastSunday : Instant := ⟨1735473600, 0, by decide⟩

/-- Calls from that Sunday and from the day after it. -/
def yearEnd : List Call :=
  [.update (.lit 1010 0) ⟨1735495200, 0, by decide⟩,
    .recordPnl (-.lit 10 0) ⟨1735560000, 0, by decide⟩,
    .update (.lit 990 0) ⟨1735563600, 0, by decide⟩]

/-- A loss on New Year's Day, which is in the week of the Monday before. -/
def newYear : Call := .recordPnl (-.lit 5 0) ⟨1735732800, 0, by decide⟩

/-- The week goes on over the end of the year, the day does not. -/
theorem windows_of_forward_clock_newYear : ∃ m,
    (new (.lit 1000 0) lastSunday).runCalls (yearEnd ++ [newYear]) = .ok m ∧
    (lastSunday :: (yearEnd ++ [newYear]).map Call.time).Pairwise (· ≤ ·) ∧
    (yearEnd ++ [newYear]).map (·.time.date) =
      [⟨2024, 12, 29⟩, ⟨2024, 12, 30⟩, ⟨2024, 12, 30⟩, ⟨2025, 1, 1⟩] ∧
    (yearEnd ++ [newYear]).map (·.time.isoWeek) = [(2024, 52), (2025, 1), (2025, 1), (2025, 1)] ∧
    Decimal.total [-.lit 5 0] = .ok m.dailyPnl ∧ m.dailyStartEquity = .lit 990 0 ∧
    Decimal.total [-.lit 10 0, -.lit 5 0] = .ok m.weeklyPnl ∧
    m.weeklyStartEquity = .lit 1010 0 := by
  have hsome : ((new (.lit 1000 0) lastSunday).runCalls (yearEnd ++ [newYear])).toOption.bind
      (fun _ => some ()) = some () := by decide +kernel
  have hclock : (lastSunday :: (yearEnd ++ [newYear]).map Call.time).Pairwise (· ≤ ·) := by decide
  obtain ⟨m, hrun, -⟩ := Calc.exists_eq_ok hsome
  obtain ⟨⟨hdaily, hdailyStart, -⟩, hweekly, hweeklyStart, -⟩ :=
    windows_of_forward_clock _ _ hrun hclock
  exact ⟨m, hrun, hclock, by decide, by decide, hdaily, hdailyStart, hweekly, hweeklyStart⟩

/-! ## A clock that goes back -/

/-- Where the clock has not gone back to another period, a call in a period no later than one that
it has shown is in the period that it shows. -/
theorem same_clockAfter {t : Instant}
    (hclock : (begin :: (calls ++ [c]).map Call.time).Pairwise (p.number · ≤ p.number ·))
    (ht : t ∈ begin :: calls.map Call.time) (hle : p.number c.time ≤ p.number t) :
    p.Same c.time (clockAfter begin calls) := by
  have hlast : clockAfter begin calls =
      (begin :: calls.map Call.time).getLast (List.cons_ne_nil _ _) := by
    rw [List.getLast_eq_getLastD, List.getLastD_eq_getLast?, List.getLast?_map]
    rfl
  rw [List.map_append, ← List.cons_append, List.pairwise_append] at hclock
  obtain ⟨htimes, -, hlater⟩ := hclock
  -- the period that the clock shows is no earlier than any before it, and no later than the call's
  have hle_last := htimes.rel_getLast_of_rel_getLast_getLast ht (Int.le_refl _)
  have hlast_le := hlater _ (List.getLast_mem (List.cons_ne_nil _ _)) c.time
    (List.mem_singleton_self _)
  rw [Period.same_iff, hlast]
  omega

/-- Whatever the clock does, a window is that of the last calls in a row in its period.  A call in
the period that the clock shows goes on with the window, and any other one begins a window, also in
an earlier period.  So no window of a period that was shown is lost while the clock does not go back
to another period. -/
theorem windows_of_any_clock (start : Decimal) (begin : Instant) {calls : List Call} {c : Call}
    (hrun : (new start begin).runCalls calls = .ok m) (hcall : m.perform c = .ok m') (p : Period) :
    (Decimal.total (results (lastRow p c.time (calls ++ [c]))) = .ok (m'.window p).pnl ∧
      (m'.window p).start = equityAfter start (beforeRow p c.time (calls ++ [c]))) ∧
    (p.Same c.time (clockAfter begin calls) → (m.window p).Keeps (results [c]) (m'.window p)) ∧
    (¬ p.Same c.time (clockAfter begin calls) →
      Window.Begins m.currentEquity (results [c]) (m'.window p)) ∧
    ((begin :: (calls ++ [c]).map Call.time).Pairwise (p.number · ≤ p.number ·) →
      (∃ t ∈ begin :: calls.map Call.time, p.number c.time ≤ p.number t) →
        (m.window p).Keeps (results [c]) (m'.window p)) := by
  have hshows := shows_runCalls hrun p
  obtain ⟨hkeeps, hbegins⟩ := hshows.keeps_or_begins hcall
  obtain ⟨-, hstart, htotal⟩ := hshows.perform (currentEquity_runCalls hrun) hcall
  rw [clockAfter_concat] at hstart htotal
  exact ⟨⟨htotal, hstart⟩, hkeeps, hbegins, fun hclock ⟨_, ht, hle⟩ =>
    hkeeps (same_clockAfter hclock ht hle)⟩

/-- The clock goes back by a minute at noon, and the loss of the day stays. -/
theorem windows_of_any_clock_noon : ∃ m m',
    (new (.lit 1000 0) ⟨1704715200, 0, by decide⟩).runCalls
      [.recordPnl (-.lit 60 0) ⟨1704715200, 0, by decide⟩] = .ok m ∧
    m.perform (.recordPnl (-.lit 5 0) ⟨1704715140, 0, by decide⟩) = .ok m' ∧
    (m.window .day).Keeps [-.lit 5 0] (m'.window .day) ∧
    (m.window .week).Keeps [-.lit 5 0] (m'.window .week) := by
  have hsome : ((new (.lit 1000 0) ⟨1704715200, 0, by decide⟩).runCalls
      [.recordPnl (-.lit 60 0) ⟨1704715200, 0, by decide⟩]).toOption.bind (fun m =>
        (m.perform (.recordPnl (-.lit 5 0) ⟨1704715140, 0, by decide⟩)).toOption.bind fun _ =>
          some ()) = some () := by decide +kernel
  obtain ⟨m, hrun, h⟩ := Calc.exists_eq_ok hsome
  obtain ⟨m', hcall, -⟩ := Calc.exists_eq_ok h
  have hkeeps (p : Period) : (m.window p).Keeps [-.lit 5 0] (m'.window p) := by
    obtain ⟨-, -, -, hkeeps⟩ := windows_of_any_clock _ _ hrun hcall p
    cases p with
    | day => exact hkeeps (by decide) ⟨_, List.mem_cons_self, by decide⟩
    | week => exact hkeeps (by decide) ⟨_, List.mem_cons_self, by decide⟩
  exact ⟨m, m', hrun, hcall, hkeeps .day, hkeeps .week⟩

/-- Half a minute into a Monday. -/
def monday : Instant := ⟨1704672030, 0, by decide⟩

/-- The last second of the Sunday before. -/
def sunday : Instant := ⟨1704671999, 0, by decide⟩

/-- The clock goes back from a Monday to the Sunday before, and the loss of the Monday is gone from
the day and from the week, with the limit that it exceeded. -/
theorem window_lost_by_step_back : ∃ m m',
    (new (.lit 1000 0) monday).runCalls [.recordPnl (-.lit 60 0) monday] = .ok m ∧
    m.perform (.update (.lit 1000 0) sunday) = .ok m' ∧
    (sunday.day ≤ monday.day ∧ sunday.week ≤ monday.week) ∧
    m.dailyPnl = -.lit 60 0 ∧ m.weeklyPnl = -.lit 60 0 ∧
    m.breach? {} = .ok (some (.maxDailyLossReached (.lit 6 2))) ∧
    m'.dailyPnl = 0 ∧ m'.weeklyPnl = 0 ∧ m'.breach? {} = .ok none := by
  have hlost : ((new (.lit 1000 0) monday).runCalls
      [.recordPnl (-.lit 60 0) monday]).toOption.bind (fun m =>
        (m.perform (.update (.lit 1000 0) sunday)).toOption.bind fun m' =>
          (m.breach? {}).toOption.bind fun breach => (m'.breach? {}).toOption.bind fun breach' =>
            some ((m.dailyPnl, m.weeklyPnl, breach), m'.dailyPnl, m'.weeklyPnl, breach')) =
      some ((-.lit 60 0, -.lit 60 0, some (.maxDailyLossReached (.lit 6 2))), 0, 0, none) := by
    decide +kernel
  obtain ⟨m, hrun, h⟩ := Calc.exists_eq_ok hlost
  obtain ⟨m', hcall, h⟩ := Calc.exists_eq_ok h
  obtain ⟨breach, hbreach, h⟩ := Calc.exists_eq_ok h
  obtain ⟨breach', hbreach', h⟩ := Calc.exists_eq_ok h
  simp only [Option.some.injEq, Prod.mk.injEq] at h
  obtain ⟨⟨hdaily, hweekly, rfl⟩, hdaily', hweekly', rfl⟩ := h
  exact ⟨m, m', hrun, hcall, by decide, hdaily, hweekly, hbreach, hdaily', hweekly', hbreach'⟩

end DrawdownMonitor

end SimBroker
