import DecentralizedCloud.Master.Membership
import Mathlib.Data.Int.Order.Basic

/-!
# The voting timestamp

All masters sign one text in a voting phase: the time at which the phase begins,
five minutes before the hour is full. A master computes it from the clock when it
boots, and from then on adds an hour whenever it sees a phase close. It never
looks at the clock again. So the text is right exactly as long as the loop sees
every hour: a reading inside the window of the hour, and one after it, before the
next window opens (`signed_timestamp_iff`). An hour that the loop misses (the
machine sleeps, or the node boots in the last moment of a window) puts it
behind for good.
-/

namespace DecentralizedCloud

open Machine Master Node

namespace Node

def initializeNextVotingTimestamp (now : Int) (n : Node) : Node :=
  let secondsUntilNextHour := 3600 - now.tmod 3600
  { n with
    nextVotingTimestampStr :=
      toString (now + secondsUntilNextHour - (60 - openVotingStartMinute) * 60) }

/-- What a booting master does about the voting before its loop starts. -/
def boot (now : Int) (n : Node) : Node :=
  let n := initializeNextVotingTimestamp now n
  if inVotingTime now then { n with ignoreThisVotingRound := true } else n

/-- At the time `now`, the node opens a voting phase and signs its timestamp. -/
def SignsAt (n : Node) (now : Int) : Prop :=
  inVotingTime now = true ∧ n.inVotingPhase = false ∧ n.canParticipateInVoting = true

instance (n : Node) (now : Int) : Decidable (n.SignsAt now) :=
  inferInstanceAs (Decidable (_ ∧ _ ∧ _))

end Node

/-- The hours of the clock, divided as the source does it. -/
def hour (t : Int) : Int := t.tdiv 3600

/-- The beginning of the voting window of an hour. -/
def windowStart (h : Int) : Int := h * 3600 + openVotingStartMinute * 60

/-- The readings of the clock in a history. -/
def readings (es : List VotingEvent) : List Int :=
  es.filterMap fun e =>
    match e with
    | .clock now => some now
    | .vote _ _ => none

/-- The loop has seen every hour from `h₀` on until `h`: its voting window, and
that it was over before the next one. -/
def Watched (h₀ : Int) (ts : List Int) (h : Int) : Prop :=
  ∀ k, h₀ ≤ k → k < h →
    (∃ t ∈ ts, hour t = k ∧ inVotingTime t = true) ∧
      ∃ t ∈ ts, hour t = k + 1 ∧ inVotingTime t = false

/-! ## The clock -/

theorem hour_spec (t : Int) :
    t = 3600 * hour t + t.tmod 3600 ∧ (0 ≤ t → 0 ≤ t.tmod 3600 ∧ t.tmod 3600 < 3600) ∧
      (t < 0 → -3600 < t.tmod 3600 ∧ t.tmod 3600 ≤ 0) := by
  refine ⟨(Int.mul_tdiv_add_tmod t 3600).symm, ?_, ?_⟩
  · intro h
    exact ⟨Int.tmod_nonneg 3600 h, Int.tmod_lt_of_pos t (by decide)⟩
  · intro h
    have hneg : (-t).tmod 3600 = -t.tmod 3600 := Int.neg_tmod t 3600
    have hpos : 0 ≤ (-t).tmod 3600 := Int.tmod_nonneg 3600 (by omega)
    have hlt : (-t).tmod 3600 < 3600 := Int.tmod_lt_of_pos (-t) (by decide)
    omega

theorem inVotingTime_iff {t : Int} : inVotingTime t = true ↔ 3300 ≤ t.tmod 3600 := by
  unfold inVotingTime openVotingStartMinute
  rw [decide_eq_true_eq]
  rcases Int.lt_or_le (t.tmod 3600) 0 with h | h
  · have hle : (t.tmod 3600).tdiv 60 ≤ (0 : Int).tdiv 60 := Int.tdiv_le_tdiv (by decide) h.le
    rw [Int.zero_tdiv] at hle
    omega
  · rw [Int.tdiv_eq_ediv_of_nonneg h]
    omega

theorem hour_mono {a b : Int} (h : a ≤ b) : hour a ≤ hour b := Int.tdiv_le_tdiv (by decide) h

/-- A window ends with its hour. -/
theorem hour_lt_of_left {a b : Int} (h : a ≤ b) (ha : inVotingTime a = true)
    (hb : inVotingTime b = false) : hour a < hour b := by
  rw [inVotingTime_iff] at ha
  rw [← Bool.not_eq_true, inVotingTime_iff] at hb
  have hspec := hour_spec a
  have hspec' := hour_spec b
  omega

/-- Inside a window, the clock is past its beginning. -/
theorem windowStart_le {t : Int} (h : inVotingTime t = true) :
    0 ≤ windowStart (hour t) ∧ windowStart (hour t) ≤ t := by
  rw [inVotingTime_iff] at h
  have hspec := hour_spec t
  unfold windowStart openVotingStartMinute
  omega

theorem initialize_eq (now : Int) (n : Node) :
    (initializeNextVotingTimestamp now n).nextVotingTimestampStr =
      toString (windowStart (hour now)) := by
  have hspec := hour_spec now
  unfold initializeNextVotingTimestamp windowStart openVotingStartMinute
  dsimp only
  congr 1
  omega

/-! ## Hours that were missed -/

section

variable {h₀ h t : Int} {ts : List Int}

theorem not_watched_of_unopened (missed : Int) (h₁ : h₀ ≤ missed) (h₂ : missed < h)
    (hnone : ∀ r ∈ ts, hour r = missed → inVotingTime r = false) : ¬ Watched h₀ ts h := by
  intro hwatched
  rcases (hwatched missed h₁ h₂).1 with ⟨r, hr, hhour, htime⟩
  rw [hnone r hr hhour] at htime
  cases htime

theorem not_watched_of_unclosed (missed : Int) (h₁ : h₀ ≤ missed) (h₂ : missed < h)
    (hnone : ∀ r ∈ ts, hour r = missed + 1 → inVotingTime r = true) : ¬ Watched h₀ ts h := by
  intro hwatched
  rcases (hwatched missed h₁ h₂).2 with ⟨r, hr, hhour, htime⟩
  rw [hnone r hr hhour] at htime
  cases htime

/-- More readings watch no less. -/
theorem Watched.snoc (hwatched : Watched h₀ ts h) (t : Int) : Watched h₀ (ts ++ [t]) h := by
  intro k h₁ h₂
  rcases hwatched k h₁ h₂ with ⟨⟨a, ha, ha'⟩, b, hb, hb'⟩
  exact ⟨⟨a, List.mem_append_left _ ha, ha'⟩, b, List.mem_append_left _ hb, hb'⟩

/-- A reading of an hour that does not count any more adds nothing. -/
theorem Watched.of_snoc (hwatched : Watched h₀ (ts ++ [t]) h)
    (hin : inVotingTime t = true → h ≤ hour t)
    (hout : inVotingTime t = false → h < hour t ∨ (h ≤ hour t ∧ (h₀ < h →
      ∃ r ∈ ts, hour r = h ∧ inVotingTime r = false))) : Watched h₀ ts h := by
  intro k h₁ h₂
  rcases hwatched k h₁ h₂ with ⟨⟨a, ha, hahour, hatime⟩, b, hb, hbhour, hbtime⟩
  constructor
  · rcases List.mem_append.mp ha with ha | ha
    · exact ⟨a, ha, hahour, hatime⟩
    · rw [List.mem_singleton] at ha
      subst ha
      have hlate := hin hatime
      omega
  · rcases List.mem_append.mp hb with hb | hb
    · exact ⟨b, hb, hbhour, hbtime⟩
    · rw [List.mem_singleton] at hb
      subst hb
      rcases hout hbtime with hlate | ⟨hlate, hseen⟩
      · omega
      · rcases hseen (by omega) with ⟨r, hr, hrhour, hrtime⟩
        exact ⟨r, hr, by omega, hrtime⟩

/-- Where the readings have led to: the last one, whether it lies in a window, and
the hour `k` whose timestamp is to be signed next. -/
structure Saw (t₀ : Int) (ts : List Int) (l : Int) (inPhase : Bool) (k : Int) : Prop where
  first : t₀ ≤ l
  before : ∀ t ∈ ts, t ≤ l
  opened : inPhase = true → l ∈ ts ∧ inVotingTime l = true
  closed : inPhase = false → ts = [] ∧ l = t₀ ∨ l ∈ ts ∧ inVotingTime l = false
  started : hour t₀ ≤ k
  behind : k ≤ hour l
  exact : k = hour l ↔ Watched (hour t₀) ts (hour l)

variable {t₀ l k : Int} {inPhase : Bool}

theorem Saw.start (t₀ : Int) : Saw t₀ [] t₀ false (hour t₀) where
  first := Int.le_refl _
  before := by simp
  opened := by simp
  closed := by simp
  started := Int.le_refl _
  behind := Int.le_refl _
  exact := by
    refine iff_of_true rfl ?_
    intro k h₁ h₂
    omega

/-- While the phase is closed, the window of the hour has not been seen. -/
theorem Saw.unopened (hsaw : Saw t₀ ts l false k) :
    ∀ r ∈ ts, hour r = hour l → inVotingTime r = false := by
  intro r hr hhour
  rcases hsaw.closed rfl with ⟨hnil, -⟩ | ⟨-, hl⟩
  · rw [hnil] at hr
    cases hr
  · rw [← Bool.not_eq_true]
    intro htime
    have hlt := hour_lt_of_left (hsaw.before r hr) htime hl
    omega

/-- The readings so far are of hours up to the last one's. -/
theorem Saw.hour_le (hsaw : Saw t₀ ts l inPhase k) {r : Int} (hr : r ∈ ts) : hour r ≤ hour l :=
  hour_mono (hsaw.before r hr)

theorem Saw.watched_iff_same (hsaw : Saw t₀ ts l inPhase k) (hhour : hour t = hour l)
    (hstay : inVotingTime t = false → inPhase = false) :
    Watched (hour t₀) (ts ++ [t]) (hour l) ↔ Watched (hour t₀) ts (hour l) := by
  constructor
  · intro hwatched
    refine hwatched.of_snoc (fun _ => hhour.ge) ?_
    intro htime
    refine .inr ⟨hhour.ge, ?_⟩
    intro hlater
    rcases hsaw.closed (hstay htime) with ⟨-, hl⟩ | ⟨hmem, hl⟩
    · rw [hl] at hlater
      omega
    · exact ⟨l, hmem, rfl, hl⟩
  · intro hwatched
    exact hwatched.snoc t

/-- When the window is left in the next hour, that hour is watched if and only if this one was. -/
theorem Saw.watched_iff_closed (hsaw : Saw t₀ ts l true k) (htime : inVotingTime t = false)
    (hhour : hour t = hour l + 1) :
    Watched (hour t₀) (ts ++ [t]) (hour l + 1) ↔ Watched (hour t₀) ts (hour l) := by
  constructor
  · intro hwatched
    have hrestrict : Watched (hour t₀) (ts ++ [t]) (hour l) :=
      fun k h₁ h₂ => hwatched k h₁ (by omega)
    refine hrestrict.of_snoc ?_ fun _ => .inl (by omega)
    intro hin
    omega
  · intro hwatched k h₁ h₂
    by_cases hk : k < hour l
    · exact hwatched.snoc t k h₁ hk
    · have hlast : k = hour l := by omega
      rcases hsaw.opened rfl with ⟨hmem, hl⟩
      exact ⟨⟨l, List.mem_append_left _ hmem, hlast.symm, hl⟩,
        t, List.mem_append_right _ (List.mem_singleton.mpr rfl), by omega, htime⟩

/-- The hour of the timestamp after the reading `t`. -/
def hourAfter (inPhase : Bool) (t k : Int) : Int := if inPhase && !inVotingTime t then k + 1 else k

/-- The hour to be signed next is not ahead of the clock, and it is right if and only if all hours
were watched. -/
theorem Saw.exact_next (hsaw : Saw t₀ ts l inPhase k) (hl : l ≤ t) :
    hourAfter inPhase t k ≤ hour t ∧
      (hourAfter inPhase t k = hour t ↔ Watched (hour t₀) (ts ++ [t]) (hour t)) := by
  have hhours : hour l ≤ hour t := hour_mono hl
  have hbehind := hsaw.behind
  have hstarted := hsaw.started
  have hexact := hsaw.exact
  -- what was read before is of hours up to the last one
  have hold : ∀ h, hour l < h → ∀ r ∈ ts ++ [t], hour r = h → r = t := by
    intro h hlater r hr hhour
    rcases List.mem_append.mp hr with hr | hr
    · have hle := hsaw.hour_le hr
      omega
    · exact List.mem_singleton.mp hr
  rcases Int.lt_or_eq_of_le hhours with hlater | hsame
  case inr =>
    -- within one hour, no window is left
    have hstay : inVotingTime t = false → inPhase = false := by
      intro htime
      rw [← Bool.not_eq_true]
      intro hphase
      have hlt := hour_lt_of_left hl (hsaw.opened hphase).2 htime
      omega
    have hk : hourAfter inPhase t k = k := by
      unfold hourAfter
      cases htime : inVotingTime t with
      | true => simp
      | false => simp [hstay htime]
    rw [hk, ← hsame, hsaw.watched_iff_same hsame.symm hstay]
    exact ⟨hbehind, hexact⟩
  case inl =>
    cases inPhase with
    | false =>
        -- the window of the last hour was missed
        have hnot : ¬ Watched (hour t₀) (ts ++ [t]) (hour t) := by
          refine not_watched_of_unopened (hour l) (hour_mono hsaw.first) hlater ?_
          intro r hr hhour
          rcases List.mem_append.mp hr with hr | hr
          · exact hsaw.unopened r hr hhour
          · rw [List.mem_singleton.mp hr] at hhour
            omega
        show k ≤ hour t ∧ (k = hour t ↔ _)
        exact ⟨by omega, iff_of_false (by omega) hnot⟩
    | true =>
        cases htime : inVotingTime t with
        | true =>
            -- the end of the last window was missed
            have hnot : ¬ Watched (hour t₀) (ts ++ [t]) (hour t) := by
              refine not_watched_of_unclosed (hour l) (hour_mono hsaw.first) hlater ?_
              intro r hr hhour
              rw [hold _ (by omega) r hr hhour]
              exact htime
            have hk : hourAfter true t k = k := by simp [hourAfter, htime]
            rw [hk]
            exact ⟨by omega, iff_of_false (by omega) hnot⟩
        | false =>
            have hk : hourAfter true t k = k + 1 := by simp [hourAfter, htime]
            rw [hk]
            by_cases hnext : hour t = hour l + 1
            · rw [hnext, hsaw.watched_iff_closed htime hnext, ← hexact]
              omega
            · -- a whole hour was missed
              have hnot : ¬ Watched (hour t₀) (ts ++ [t]) (hour t) := by
                have hfirst := hour_mono hsaw.first
                refine not_watched_of_unopened (hour l + 1) (by omega) (by omega) ?_
                intro r hr hhour
                rw [hold _ (by omega) r hr hhour]
                exact htime
              exact ⟨by omega, iff_of_false (by omega) hnot⟩

/-- The next reading: the timestamp moves on when a window has been left. -/
theorem Saw.next (hsaw : Saw t₀ ts l inPhase k) (hl : l ≤ t) :
    Saw t₀ (ts ++ [t]) t (inVotingTime t) (hourAfter inPhase t k) where
  first := Int.le_trans hsaw.first hl
  before := by
    intro r hr
    rcases List.mem_append.mp hr with hr | hr
    · exact Int.le_trans (hsaw.before r hr) hl
    · exact (List.mem_singleton.mp hr).le
  opened := fun htime => ⟨List.mem_append_right _ (List.mem_singleton.mpr rfl), htime⟩
  closed := fun htime => .inr ⟨List.mem_append_right _ (List.mem_singleton.mpr rfl), htime⟩
  started := by
    have hstarted := hsaw.started
    unfold hourAfter
    split <;> omega
  behind := (hsaw.exact_next hl).1
  exact := (hsaw.exact_next hl).2

end

/-! ## The node behind the readings -/

variable {P : Platform} {S : KeySort Voter.number} {L : NodeLibrary} {n n' : Node}

/-- A closing moves a timestamp that fits a `time_t` on by an hour. -/
theorem updateNextVotingTimestamp_eq {z : Int} (hstamp : n.nextVotingTimestampStr = toString z)
    (hlow : -(2 ^ 63) ≤ z) (hhigh : z < 2 ^ 63) :
    updateNextVotingTimestamp n =
      some { n with nextVotingTimestampStr := toString (z + 3600) } := by
  have hread : stoull (toString z) = some (z % 2 ^ 64).toNat := by
    have hrange : decide (-(2 ^ 64) < z ∧ z < 2 ^ 64) = true := by
      rw [decide_eq_true_eq]
      omega
    rw [stoull, leadingInteger_toString, Option.filter_some, if_pos hrange, Option.map_some]
  have hback : (((z % 2 ^ 64).toNat : Int)).bmod (2 ^ 64) = z := by
    rw [Int.toNat_of_nonneg (Int.emod_nonneg z (by decide)), Int.bmod_def]
    omega
  unfold updateNextVotingTimestamp
  rw [hstamp, hread]
  show some { n with
    nextVotingTimestampStr := toString (((z % 2 ^ 64).toNat : Int).bmod (2 ^ 64) + 3600) } = _
  rw [hback]

/-- A closing in hour `k`, at a timestamp that can be read, moves on to the next. -/
theorem closeVoting_timestamp {k : Int} (hclose : closeVoting S n = some n')
    (hstamp : n.nextVotingTimestampStr = toString (windowStart k))
    (hlow : -(2 ^ 63) ≤ windowStart k) (hhigh : windowStart k < 2 ^ 63) :
    n'.nextVotingTimestampStr = toString (windowStart (k + 1)) := by
  have hnext : windowStart k + 3600 = windowStart (k + 1) := by
    unfold windowStart
    omega
  rcases (closesVoting hclose).stamp with ⟨stamp, hread, htext⟩
  have hupdate := updateNextVotingTimestamp_eq hstamp hlow hhigh
  rw [updateNextVotingTimestamp, hread, Option.map_some] at hupdate
  have hsame := congrArg nextVotingTimestampStr (Option.some.inj hupdate)
  rw [htext, ← hnext]
  exact hsame

theorem exists_closeVoting_timestamp {k : Int}
    (hstamp : n.nextVotingTimestampStr = toString (windowStart k))
    (hlow : -(2 ^ 63) ≤ windowStart k) (hhigh : windowStart k < 2 ^ 63) :
    ∃ n', closeVoting S n = some n' := by
  unfold closeVoting
  rw [updateNextVotingTimestamp_eq (by exact hstamp) hlow hhigh]
  exact ⟨_, rfl⟩

/-- What a node keeps of the readings: the phase, and the timestamp of an hour. -/
def Keeps (t₀ : Int) (ts : List Int) (n : Node) : Prop :=
  ∃ l k, Saw t₀ ts l n.inVotingPhase k ∧ n.nextVotingTimestampStr = toString (windowStart k)

/-- The clock does not run backwards, and fits a `time_t`. -/
def ClockRuns (t₀ : Int) (ts : List Int) : Prop :=
  (t₀ :: ts).Pairwise (· ≤ ·) ∧ ∀ t ∈ t₀ :: ts, -(2 ^ 63) ≤ t ∧ t < 2 ^ 63

theorem Saw.le_next {t₀ l k t : Int} {ts : List Int} {inPhase : Bool}
    (hsaw : Saw t₀ ts l inPhase k) (hclock : ClockRuns t₀ (ts ++ [t])) : l ≤ t := by
  have hlast : ∀ r ∈ t₀ :: ts, r ≤ t := by
    intro r hr
    have hpair : ((t₀ :: ts) ++ [t]).Pairwise (· ≤ ·) := hclock.1
    exact (List.pairwise_append.mp hpair).2.2 r hr t (List.mem_singleton.mpr rfl)
  apply hlast
  cases inPhase with
  | true => exact List.mem_cons_of_mem _ (hsaw.opened rfl).1
  | false =>
      rcases hsaw.closed rfl with ⟨-, rfl⟩ | ⟨hmem, -⟩
      · exact List.mem_cons_self
      · exact List.mem_cons_of_mem _ hmem

/-- While the phase is open, the timestamp fits a `time_t`. -/
theorem Saw.windowStart_range {t₀ l k : Int} {ts : List Int} (hsaw : Saw t₀ ts l true k)
    (hclock : ClockRuns t₀ ts) : -(2 ^ 63) ≤ windowStart k ∧ windowStart k < 2 ^ 63 := by
  rcases hsaw.opened rfl with ⟨hmem, htime⟩
  have hstart := (windowStart_le htime).2
  have hlast := hclock.2 l (List.mem_cons_of_mem _ hmem)
  have hfirst := hclock.2 t₀ List.mem_cons_self
  have hspec := hour_spec t₀
  have hbehind := hsaw.behind
  have hstarted := hsaw.started
  unfold windowStart openVotingStartMinute at *
  omega

theorem ClockRuns.of_append {t₀ : Int} {ts rs : List Int} (h : ClockRuns t₀ (ts ++ rs)) :
    ClockRuns t₀ ts := by
  constructor
  · exact h.1.sublist ((List.sublist_append_left ts rs).cons_cons t₀)
  · intro t ht
    apply h.2 t
    rw [List.mem_cons] at ht ⊢
    exact ht.imp_right (List.mem_append_left rs)

/-- A turn of the loop at the next reading. -/
theorem Keeps.clock {t₀ now : Int} {ts : List Int} (h : Keeps t₀ ts n)
    (hclock : ClockRuns t₀ (ts ++ [now]))
    (hstep : membershipStep P S L n (.clock now) = some n') : Keeps t₀ (ts ++ [now]) n' := by
  rcases h with ⟨l, k, hsaw, hstamp⟩
  have hnext := hsaw.next (hsaw.le_next hclock)
  cases hstep
  cases hturn : enterAndExitVotingPhase P S now n with
  | none =>
      -- a closing does not raise, since its timestamp can be read
      exfalso
      unfold enterAndExitVotingPhase at hturn
      cases hphase : n.inVotingPhase with
      | false =>
          rw [hphase] at hturn
          split at hturn <;> cases hturn
      | true =>
          rw [hphase] at hsaw
          rcases hsaw.windowStart_range hclock.of_append with ⟨hlow, hhigh⟩
          rcases exists_closeVoting_timestamp (S := S) hstamp hlow hhigh with ⟨n', hclose⟩
          rw [hphase, if_pos rfl, if_pos rfl, hclose] at hturn
          split at hturn <;> cases hturn
  | some n' =>
      show Keeps t₀ (ts ++ [now]) n'
      cases phaseStep hturn with
      | same hsame =>
          have hk : hourAfter n.inVotingPhase now k = k := by simp [hourAfter, hsame]
          rw [hk, hsame] at hnext
          exact ⟨now, k, hnext, hstamp⟩
      | opened htime hphase =>
          have hk : hourAfter n.inVotingPhase now k = k := by simp [hourAfter, htime]
          rw [hk, htime] at hnext
          rcases openVoting_cases P n with hsame | ⟨_, hcast⟩
          · rw [hsame]
            exact ⟨now, k, hnext, hstamp⟩
          · rw [hcast]
            exact ⟨now, k, hnext, hstamp⟩
      | closed _ htime hphase hclose =>
          have hk : hourAfter n.inVotingPhase now k = k + 1 := by simp [hourAfter, htime, hphase]
          rw [hk, htime, ← (closesVoting hclose).inVotingPhase] at hnext
          rw [hphase] at hsaw
          rcases hsaw.windowStart_range hclock.of_append with ⟨hlow, hhigh⟩
          exact ⟨now, k + 1, hnext, closeVoting_timestamp hclose hstamp hlow hhigh⟩

theorem keeps_boot (t₀ : Int) (hphase : n.inVotingPhase = false) : Keeps t₀ [] (boot t₀ n) := by
  have hsaw := Saw.start t₀
  unfold boot
  dsimp only
  split
  · refine ⟨t₀, hour t₀, ?_, initialize_eq t₀ n⟩
    show Saw t₀ [] t₀ n.inVotingPhase (hour t₀)
    rw [hphase]
    exact hsaw
  · refine ⟨t₀, hour t₀, ?_, initialize_eq t₀ n⟩
    show Saw t₀ [] t₀ n.inVotingPhase (hour t₀)
    rw [hphase]
    exact hsaw

theorem readings_snoc_clock (es : List VotingEvent) (now : Int) :
    readings (es ++ [.clock now]) = readings es ++ [now] := by
  simp [readings]

theorem readings_snoc_vote (es : List VotingEvent) (signature publicKey : String) :
    readings (es ++ [.vote signature publicKey]) = readings es := by
  simp [readings]

/-- A run with a running clock keeps what has been seen. -/
theorem keeps_run {t₀ : Int} {n₀ : Node} (hphase : n₀.inVotingPhase = false)
    {es : List VotingEvent} (h : Run (membershipStep P S L) (boot t₀ n₀) es n)
    (hclock : ClockRuns t₀ (readings es)) : Keeps t₀ (readings es) n := by
  revert hclock
  refine h.invariant (fun es n => ClockRuns t₀ (readings es) → Keeps t₀ (readings es) n) ?_ ?_
  · intro _
    exact keeps_boot t₀ hphase
  · intro es n e n' hinv _ hstep hclock
    cases e with
    | clock now =>
        rw [readings_snoc_clock] at hclock ⊢
        exact (hinv hclock.of_append).clock hclock hstep
    | vote signature publicKey =>
        rw [readings_snoc_vote] at hclock ⊢
        rcases hinv hclock with ⟨l, k, hsaw, hstamp⟩
        cases hstep
        rcases registerVote_cases L n signature publicKey with hsame | ⟨_, _, _, hadded⟩
        · rw [hsame]
          exact ⟨l, k, hsaw, hstamp⟩
        · rw [hadded]
          exact ⟨l, k, hsaw, hstamp⟩

/-- Whenever a master opens a voting phase and signs, the text is the beginning of
the window of the current hour if and only if the loop has seen every hour since
the master was booted. -/
theorem signed_timestamp_iff (P : Platform) (S : KeySort Voter.number) (L : NodeLibrary)
    {t₀ now : Int} {n₀ : Node} (hphase : n₀.inVotingPhase = false) {es : List VotingEvent}
    (h : Run (membershipStep P S L) (boot t₀ n₀) es n)
    (hclock : ClockRuns t₀ (readings es ++ [now])) (hsigns : n.SignsAt now) :
    n.nextVotingTimestampStr = toString (windowStart (hour now)) ↔
      Watched (hour t₀) (readings es) (hour now) := by
  rcases keeps_run hphase h hclock.of_append with ⟨l, k, hsaw, hstamp⟩
  rcases hsigns with ⟨htime, hclosed, -⟩
  rw [hclosed] at hsaw
  have hl : l ≤ now := hsaw.le_next hclock
  have htext : n.nextVotingTimestampStr = toString (windowStart (hour now)) ↔ k = hour now := by
    rw [hstamp, toString_inj]
    unfold windowStart
    omega
  have hk : hourAfter false now k = k := rfl
  have hexact := (hsaw.exact_next hl).2
  rw [hk] at hexact
  rw [htext, hexact]
  -- a reading in the window of its own hour does not count for the hours before
  constructor
  · intro hwatched
    refine hwatched.of_snoc (fun _ => Int.le_refl _) ?_
    rw [htime]
    exact nofun
  · intro hwatched
    exact hwatched.snoc now

/-- A master that is booted at the full hour opens its second phase with the right text. -/
theorem signed_timestamp_iff_second :
    ∃ n, Run (membershipStep Sample.votingPlatform Sample.voteSort Sample.votingLibrary)
        (boot 0 Sample.votingNode) [.clock 3300, .clock 3600] n ∧ n.SignsAt 6900 ∧
      n.nextVotingTimestampStr = toString (windowStart (hour 6900)) := by
  obtain ⟨n, hrun, hsigns⟩ :
      ∃ n, Run (membershipStep Sample.votingPlatform Sample.voteSort Sample.votingLibrary)
          (boot 0 Sample.votingNode) [.clock 3300, .clock 3600] n ∧
        decide (n.SignsAt 6900) = true := exists_trace_of_exec _ (by decide +kernel)
  have hclock : ClockRuns 0 (readings [.clock 3300, .clock 3600] ++ [6900]) := by
    constructor <;> decide
  refine ⟨n, hrun, of_decide_eq_true hsigns,
    (signed_timestamp_iff _ _ _ rfl hrun hclock (of_decide_eq_true hsigns)).mpr ?_⟩
  intro k h₁ h₂
  have hzero : hour 0 = 0 := rfl
  have hone : hour 6900 = 1 := rfl
  have hk : k = 0 := by omega
  subst hk
  decide

/-- A master is booted in the last second of a window, and reads the clock for the
first time when the window is over. An hour later it signs nothing, as it should;
from then on it signs the timestamp of the hour before. -/
theorem signed_timestamp_behind :
    ∃ n, Run (membershipStep Sample.votingPlatform Sample.voteSort Sample.votingLibrary)
        (boot 3599 Sample.votingNode) [.clock 3600, .clock 6900, .clock 7200] n ∧
      ClockRuns 3599 (readings [.clock 3600, .clock 6900, .clock 7200] ++ [10500]) ∧
      n.SignsAt 10500 ∧ n.nextVotingTimestampStr ≠ toString (windowStart (hour 10500)) := by
  obtain ⟨n, hrun, hcheck⟩ :
      ∃ n, Run (membershipStep Sample.votingPlatform Sample.voteSort Sample.votingLibrary)
          (boot 3599 Sample.votingNode) [.clock 3600, .clock 6900, .clock 7200] n ∧
        decide (n.SignsAt 10500 ∧
          n.nextVotingTimestampStr ≠ toString (windowStart (hour 10500))) = true :=
    exists_trace_of_exec _ (by decide +kernel)
  rcases of_decide_eq_true hcheck with ⟨hsigns, hbehind⟩
  refine ⟨n, hrun, ?_, hsigns, hbehind⟩
  constructor <;> decide

end DecentralizedCloud
