import Lockstep.Proofs.Drift
import Lockstep.Proofs.Drift.Monitor
import Mathlib.Data.Nat.Bitwise

/-! # Windows of samples

A monitor cuts the ticks of a scope into windows of one length. As long as it has room for the samples
of a window, its opinion on the window holds them all, and since positions of one stream are told apart
by the words that stand for them, two opinions on a window part at the first tick whose samples differ
(`firstDifferenceOf_sampled`).
-/

namespace Lockstep

/-! ## Words that stand for states -/

namespace StreamState

theorem toNat_rotateLeft64 (x : UInt64) :
    (rotateLeft64 x 17).toNat = x.toNat % 2 ^ 47 * 2 ^ 17 + x.toNat / 2 ^ 47 := by
  have bound : x.toNat < 2 ^ 64 := x.toNat_lt
  have high : x.toNat / 2 ^ 47 < 2 ^ 17 := by omega
  have low : x.toNat * 2 ^ 17 % 2 ^ 64 = x.toNat % 2 ^ 47 * 2 ^ 17 := by omega
  have left : (UInt64.ofNat 17).toNat % 64 = 17 := rfl
  have right : (UInt64.ofNat ((64 - 17) % 64)).toNat % 64 = 47 := rfl
  rw [rotateLeft64, UInt64.toNat_or, UInt64.toNat_shiftLeft, UInt64.toNat_shiftRight, left, right,
    Nat.shiftLeft_eq, Nat.shiftRight_eq_div_pow, low, ← Nat.shiftLeft_eq,
    ← Nat.shiftLeft_add_eq_or_of_lt high]

theorem rotateLeft64_injective {x y : UInt64} (same : rotateLeft64 x 17 = rotateLeft64 y 17) :
    x = y := by
  have words := congrArg UInt64.toNat same
  rw [toNat_rotateLeft64, toNat_rotateLeft64] at words
  have bound : x.toNat < 2 ^ 64 := x.toNat_lt
  have bound' : y.toNat < 2 ^ 64 := y.toNat_lt
  exact UInt64.toNat_inj.mp (by omega)

/-- A state of the stream with this seed, at one of its first `2 ^ 64` words. -/
def IsEarly (seed : UInt64) (state : StreamState) : Prop :=
  state.seed = seed ∧ state.wordPos < UInt64.size

instance (seed : UInt64) (state : StreamState) : Decidable (state.IsEarly seed) :=
  inferInstanceAs (Decidable (_ ∧ _))

/-- Early states of one stream are told apart by the words that stand for them. -/
theorem IsEarly.eq_of_fold {seed : UInt64} {first second : StreamState} (early : first.IsEarly seed)
    (early' : second.IsEarly seed) (same : first.fold = second.fold) : first = second := by
  obtain ⟨firstSeed, position⟩ := first
  obtain ⟨secondSeed, position'⟩ := second
  obtain ⟨rfl, low⟩ := early
  obtain ⟨rfl, low'⟩ := early'
  simp only [fold, Nat.div_eq_of_lt low, Nat.div_eq_of_lt low', UInt64.xor_left_inj,
    UInt64.xor_right_inj] at same
  have words := congrArg UInt64.toNat (rotateLeft64_injective same)
  rw [UInt64.toNat_ofNat_of_lt' low, UInt64.toNat_ofNat_of_lt' low'] at words
  exact congrArg _ words

theorem eq_of_map_fold {seed : UInt64} {first second : List StreamState}
    (early : ∀ state ∈ first, state.IsEarly seed) (early' : ∀ state ∈ second, state.IsEarly seed)
    (same : first.map fold = second.map fold) : first = second := by
  induction first generalizing second with
  | nil => exact (List.map_eq_nil_iff.mp same.symm).symm
  | cons state first ih =>
    obtain ⟨other, rest, rfl, word, words⟩ := List.map_eq_cons_iff.mp same.symm
    obtain ⟨here, later⟩ := List.forall_mem_cons.mp early
    obtain ⟨here', later'⟩ := List.forall_mem_cons.mp early'
    rw [here.eq_of_fold here' word.symm, ih later later' words.symm]

end StreamState

/-! ## Samples of ticks in a row -/

/-- The samples of ticks that follow each other from `first` on, each sampled in these states. -/
def sampled (first : Nat) : List (List StreamState) → List DriftSample
  | [] => []
  | states :: ticks =>
    states.map (fun state => ⟨UInt32.ofNat first, state.fold⟩) ++ sampled (first + 1) ticks

theorem length_sampled (first : Nat) (ticks : List (List StreamState)) :
    (sampled first ticks).length = ticks.flatten.length := by
  induction ticks generalizing first with
  | nil => rfl
  | cons states ticks ih => simp [sampled, ih]

theorem sampled_append (first : Nat) (ticks more : List (List StreamState)) :
    sampled first (ticks ++ more) = sampled first ticks ++ sampled (first + ticks.length) more := by
  induction ticks generalizing first with
  | nil => rfl
  | cons states ticks ih =>
    rw [List.cons_append, sampled, ih, sampled, List.append_assoc, List.length_cons,
      Nat.add_right_comm, Nat.add_assoc]

/-- Samples are stamped with ticks that do not come before the first one. -/
theorem le_tick_of_mem_sampled {first : Nat} {ticks : List (List StreamState)}
    (inside : first + ticks.length ≤ UInt32.size) {sample : DriftSample}
    (member : sample ∈ sampled first ticks) : first ≤ sample.tick.toNat := by
  induction ticks generalizing first with
  | nil => cases member
  | cons states ticks ih =>
    rw [List.length_cons] at inside
    rcases List.mem_append.mp member with here | later
    · obtain ⟨state, -, rfl⟩ := List.mem_map.mp here
      rw [UInt32.toNat_ofNat_of_lt' (by omega)]
    · have above := ih (by omega) later
      omega

namespace DriftOpinion

theorem firstDifferenceOf_append (samples first second : List DriftSample) :
    firstDifferenceOf (samples ++ first) (samples ++ second) = firstDifferenceOf first second := by
  induction samples with
  | nil => rfl
  | cons sample samples ih =>
    rw [List.cons_append, List.cons_append, firstDifferenceOf, if_pos rfl, ih]

/-- Ticks that follow each other are sampled in their order. -/
theorem chronological_sampled {first : Nat} {ticks : List (List StreamState)}
    (inside : first + ticks.length ≤ UInt32.size) : Chronological (sampled first ticks) := by
  induction ticks generalizing first with
  | nil => exact .nil
  | cons states ticks ih =>
    rw [List.length_cons] at inside
    refine List.pairwise_append.mpr ⟨?_, ih (by omega), fun earlier here later after => ?_⟩
    · exact List.pairwise_map.mpr (List.pairwise_of_forall fun _ _ => UInt32.le_refl _)
    · obtain ⟨state, -, rfl⟩ := List.mem_map.mp here
      have above := le_tick_of_mem_sampled (by omega) after
      rw [UInt32.le_iff_toNat_le, UInt32.toNat_ofNat_of_lt' (by omega)]
      omega

/-- The values of the first tick stand for the states that it was sampled in. -/
theorem valuesAt_sampled {first : Nat} {states : List StreamState} {ticks : List (List StreamState)}
    (inside : first + (states :: ticks).length ≤ UInt32.size) :
    valuesAt (sampled first (states :: ticks)) (UInt32.ofNat first) = states.map StreamState.fold := by
  rw [List.length_cons] at inside
  have none : valuesAt (sampled (first + 1) ticks) (UInt32.ofNat first) = [] := by
    refine valuesAt_eq_nil fun sample member => ?_
    have above := le_tick_of_mem_sampled (by omega) member
    rw [UInt32.lt_iff_toNat_lt, UInt32.toNat_ofNat_of_lt' (by omega)]
    omega
  rw [sampled, valuesAt_append, none, List.append_nil]
  simp [valuesAt, List.filter_map, Function.comp_def]

/-- The samples of ticks in a row part at the first tick whose states differ, even if there are more states
on one side than on the other. -/
theorem firstDifferenceOf_sampled {seed : UInt64} {first : Nat}
    {before after after' : List (List StreamState)}
    {states states' : List StreamState} (early : ∀ state ∈ states, state.IsEarly seed)
    (early' : ∀ state ∈ states', state.IsEarly seed) (differ : states ≠ states')
    (inside : first + (before ++ states :: after).length < UInt32.size)
    (inside' : first + (before ++ states' :: after').length < UInt32.size) :
    firstDifferenceOf (sampled first (before ++ states :: after))
      (sampled first (before ++ states' :: after')) = some (UInt32.ofNat (first + before.length)) := by
  rw [List.length_append, ← Nat.add_assoc] at inside inside'
  have late {ticks : List (List StreamState)}
      (inside : first + before.length + ticks.length < UInt32.size) :
      ∀ sample ∈ sampled (first + before.length) ticks,
        UInt32.ofNat (first + before.length) ≤ sample.tick := by
    intro sample member
    have above := le_tick_of_mem_sampled (Nat.le_of_lt inside) member
    rwa [UInt32.le_iff_toNat_le, UInt32.toNat_ofNat_of_lt' (by omega)]
  rw [sampled_append, sampled_append, firstDifferenceOf_append, firstDifferenceOf_eq_some_iff
    (chronological_sampled (Nat.le_of_lt inside)) (chronological_sampled (Nat.le_of_lt inside'))]
  refine ⟨?_, fun tick parted => le_of_valuesAt_ne (late inside) (late inside') parted⟩
  change valuesAt _ _ ≠ valuesAt _ _
  rw [valuesAt_sampled (Nat.le_of_lt inside), valuesAt_sampled (Nat.le_of_lt inside')]
  exact fun same => differ (StreamState.eq_of_map_fold early early' same)

end DriftOpinion

/-! ## Windows -/

/-- The ticks of a window; windows are of one length and follow each other. -/
def windowOf (length : Nat) (ticks : List (List StreamState)) (place : Nat) : List (List StreamState) :=
  (ticks.drop (place * length)).take length

theorem windowOf_append {length place : Nat} {ticks : List (List StreamState)}
    (whole : (place + 1) * length ≤ ticks.length) (more : List (List StreamState)) :
    windowOf length (ticks ++ more) place = windowOf length ticks place := by
  rw [Nat.succ_mul] at whole
  rw [windowOf, windowOf, List.drop_append_of_le_length (by omega), List.take_append_of_le_length]
  rw [List.length_drop]
  omega

theorem getElem?_windowOf {length place : Nat} {ticks : List (List StreamState)} {index : Nat}
    (inside : index < length) :
    (windowOf length ticks place)[index]? = ticks[place * length + index]? := by
  rw [windowOf, List.getElem?_take_of_lt inside, List.getElem?_drop]

/-- Ticks that are the same up to the end of a window have the same window. -/
theorem windowOf_congr {length place : Nat} {ticks others : List (List StreamState)}
    (same : ∀ index < (place + 1) * length, ticks[index]? = others[index]?) :
    windowOf length ticks place = windowOf length others place := by
  refine List.ext_getElem? fun index => ?_
  by_cases inside : index < length
  · rw [getElem?_windowOf inside, getElem?_windowOf inside]
    exact same _ (by rw [Nat.succ_mul]; omega)
  · rw [windowOf, windowOf, List.getElem?_take, List.getElem?_take, if_neg inside, if_neg inside]

/-- The opinion on a window of ticks that a scope has simulated from `start` on. -/
def opinionOn (scope : ScopeId) (start length : Nat) (ticks : List (List StreamState)) (place : Nat) :
    DriftOpinion where
  scope
  tick := UInt32.ofNat (start + (place + 1) * length - 1)
  samples := sampled (start + place * length) (windowOf length ticks place)

theorem opinionOn_congr (scope : ScopeId) (start : Nat) {length place : Nat}
    {ticks others : List (List StreamState)}
    (same : ∀ index < (place + 1) * length, ticks[index]? = others[index]?) :
    opinionOn scope start length ticks place = opinionOn scope start length others place := by
  rw [opinionOn, opinionOn, windowOf_congr same]

/-- A window, cut at one of its ticks. -/
theorem windowOf_eq_cut {length place index : Nat} {ticks : List (List StreamState)}
    (inside : index < length) {states : List StreamState}
    (here : ticks[place * length + index]? = some states) :
    ∃ after, windowOf length ticks place =
      (windowOf length ticks place).take index ++ states :: after := by
  rw [← getElem?_windowOf inside] at here
  obtain ⟨within, rfl⟩ := List.getElem?_eq_some_iff.mp here
  exact ⟨_, (List.take_append_drop index _).symm.trans (by rw [List.drop_eq_getElem_cons within])⟩

/-- Opinions on the window of the first tick that was sampled differently part at this tick. -/
theorem firstDifference_opinionOn {seed : UInt64} (scope : ScopeId) (place : Nat) {start length index : Nat}
    {ticks others : List (List StreamState)} {states states' : List StreamState}
    (early : ∀ state ∈ states, state.IsEarly seed) (early' : ∀ state ∈ states', state.IsEarly seed)
    (inside : start + ticks.length < UInt32.size) (inside' : start + others.length < UInt32.size)
    (within : index < length)
    (same : ∀ earlier < place * length + index, ticks[earlier]? = others[earlier]?)
    (here : ticks[place * length + index]? = some states)
    (here' : others[place * length + index]? = some states') (differ : states ≠ states') :
    (opinionOn scope start length ticks place).firstDifference
      (opinionOn scope start length others place) =
        some (UInt32.ofNat (start + (place * length + index))) := by
  obtain ⟨after, cut⟩ := windowOf_eq_cut within here
  obtain ⟨after', cut'⟩ := windowOf_eq_cut within here'
  have before : (windowOf length others place).take index = (windowOf length ticks place).take index := by
    refine List.ext_getElem? fun earlier => ?_
    rw [List.getElem?_take, List.getElem?_take]
    split
    next early =>
      rw [getElem?_windowOf (by omega), getElem?_windowOf (by omega), same _ (by omega)]
    next => rfl
  have size : ((windowOf length ticks place).take index).length = index := by
    rw [← getElem?_windowOf within] at here
    exact List.length_take_of_le (Nat.le_of_lt (List.getElem?_eq_some_iff.mp here).1)
  have bounds (ticks : List (List StreamState)) (inside : start + ticks.length < UInt32.size)
      (reached : place * length < ticks.length) :
      start + place * length + (windowOf length ticks place).length < UInt32.size := by
    rw [windowOf, List.length_take, List.length_drop]
    omega
  have reached := (List.getElem?_eq_some_iff.mp here).1
  have reached' := (List.getElem?_eq_some_iff.mp here').1
  have bound := bounds ticks inside (by omega)
  have bound' := bounds others inside' (by omega)
  rw [cut] at bound
  rw [before] at cut'
  rw [cut'] at bound'
  rw [DriftOpinion.firstDifference, opinionOn, opinionOn, cut, cut',
    DriftOpinion.firstDifferenceOf_sampled early early' differ bound bound', size, Nat.add_assoc]

/-- A monitor has room for the samples of every window that these ticks close. -/
def DriftMonitor.HasRoomFor (monitor : DriftMonitor) (ticks : List (List StreamState)) : Prop :=
  ∀ place, (place + 1) * monitor.interval.toNat ≤ ticks.length →
    (windowOf monitor.interval.toNat ticks place).flatten.length ≤ monitor.capacity

namespace DriftMonitor

theorem HasRoomFor.of_append {monitor : DriftMonitor} {ticks more : List (List StreamState)}
    (room : monitor.HasRoomFor (ticks ++ more)) : monitor.HasRoomFor ticks := by
  intro place whole
  rw [← windowOf_append whole more]
  refine room place (Nat.le_trans whole ?_)
  rw [List.length_append]
  exact Nat.le_add_right _ _

/-- Sample a tick, and close it. -/
def watch (monitor : DriftMonitor) (scope : ScopeId) (tick : Tick) (states : List StreamState) :
    Option DriftOpinion × DriftMonitor :=
  (states.foldl (·.record tick ·) monitor).endTick scope tick

/-! ### Room -/

theorem samples_record {monitor : DriftMonitor} (room : monitor.samples.length < monitor.capacity)
    (tick : Tick) (state : StreamState) :
    (monitor.record tick state).samples = monitor.samples ++ [⟨tick, state.fold⟩] := by
  rw [samples, Window.length_toList] at room
  rw [record, samples, samples, Window.push, if_neg (Nat.ne_of_lt room), Window.toList_grow]

/-- A monitor that has room for them keeps all samples of a tick. -/
theorem samples_foldl_record {monitor : DriftMonitor} (tick : Tick) {states : List StreamState}
    (room : monitor.samples.length + states.length ≤ monitor.capacity) :
    (states.foldl (·.record tick ·) monitor).samples =
      monitor.samples ++ states.map fun state => ⟨tick, state.fold⟩ := by
  induction states generalizing monitor with
  | nil => simp
  | cons state states ih =>
    rw [List.length_cons] at room
    have one := samples_record (by omega : monitor.samples.length < monitor.capacity) tick state
    have rest : (monitor.record tick state).samples.length + states.length ≤
        (monitor.record tick state).capacity := by
      rw [one, List.length_append, List.length_singleton]
      exact Nat.le_trans (by omega) room
    rw [List.foldl_cons, ih rest, one, List.append_assoc, List.map_cons, List.singleton_append]

/-- Sampling changes nothing but the samples. -/
theorem foldl_record (monitor : DriftMonitor) (tick : Tick) (states : List StreamState) :
    ∃ window, states.foldl (·.record tick ·) monitor = { monitor with window } := by
  induction states generalizing monitor with
  | nil => exact ⟨_, rfl⟩
  | cons state states ih =>
    obtain ⟨window, sampled⟩ := ih (monitor.record tick state)
    exact ⟨window, sampled⟩

/-! ### Opinions on windows -/

/-- What a monitor has come to that was fresh when its scope was about to simulate the tick `start`:
so many windows are closed, an opinion on each of them is out, and the samples of the open one are
kept, as long as there is room. -/
structure Watched (fresh : DriftMonitor) (scope : ScopeId) (start : Nat)
    (ticks : List (List StreamState)) (opinions : List DriftOpinion) (monitor : DriftMonitor)
    (closed : Nat) : Prop where
  capacity : monitor.capacity = fresh.capacity
  interval : monitor.interval = fresh.interval
  count : ticks.length = closed * fresh.interval.toNat + monitor.elapsed.toNat
  inside : monitor.elapsed.toNat < fresh.interval.toNat
  samples : (ticks.drop (closed * fresh.interval.toNat)).flatten.length ≤ fresh.capacity →
    monitor.samples = sampled (start + closed * fresh.interval.toNat)
      (ticks.drop (closed * fresh.interval.toNat))
  opinions : opinions =
    (List.range closed).map (opinionOn scope start fresh.interval.toNat ticks)

theorem watched_new (capacity : Nat) (interval : UInt32) (scope : ScopeId) (start : Nat) :
    Watched (new capacity interval) scope start [] [] (new capacity interval) 0 where
  capacity := rfl
  interval := rfl
  count := by simp [new]
  inside := by
    have positive : (1 : UInt32) ≤ max interval 1 := Tick.le_max_right interval 1
    exact UInt32.le_iff_toNat_le.mp positive
  samples _ := by
    rw [List.drop_nil]
    rfl
  opinions := rfl

namespace Watched

variable {fresh monitor : DriftMonitor} {scope : ScopeId} {start closed : Nat}
  {ticks : List (List StreamState)} {opinions : List DriftOpinion} {states : List StreamState}

theorem drop_append (watched : Watched fresh scope start ticks opinions monitor closed) :
    (ticks ++ [states]).drop (closed * fresh.interval.toNat) =
      ticks.drop (closed * fresh.interval.toNat) ++ [states] :=
  List.drop_append_of_le_length (by rw [watched.count]; exact Nat.le_add_right _ _)

/-- A tick that the monitor still has room for adds its samples to those of the open window. -/
theorem samples_record (watched : Watched fresh scope start ticks opinions monitor closed)
    (room : ((ticks ++ [states]).drop (closed * fresh.interval.toNat)).flatten.length ≤ fresh.capacity) :
    (states.foldl (·.record (UInt32.ofNat (start + ticks.length)) ·) monitor).samples =
      sampled (start + closed * fresh.interval.toNat)
        ((ticks ++ [states]).drop (closed * fresh.interval.toNat)) := by
  rw [watched.drop_append, List.flatten_append, List.length_append, List.flatten_singleton] at room
  have kept := watched.samples (by omega)
  have fits : monitor.samples.length + states.length ≤ monitor.capacity := by
    rw [kept, length_sampled, watched.capacity]
    exact room
  have place : start + closed * fresh.interval.toNat +
      (ticks.drop (closed * fresh.interval.toNat)).length = start + ticks.length := by
    rw [List.length_drop, watched.count]
    omega
  rw [samples_foldl_record _ fits, kept, watched.drop_append, sampled_append, place]
  simp [sampled]

/-- Opinions on windows that are closed stay as they are. -/
theorem opinions_append (watched : Watched fresh scope start ticks opinions monitor closed) :
    opinions =
      (List.range closed).map (opinionOn scope start fresh.interval.toNat (ticks ++ [states])) := by
  rw [watched.opinions]
  refine List.map_congr_left fun place member => ?_
  have whole : (place + 1) * fresh.interval.toNat ≤ ticks.length := by
    have below : place + 1 ≤ closed := List.mem_range.mp member
    have many := Nat.mul_le_mul_right fresh.interval.toNat below
    rw [watched.count]
    omega
  rw [opinionOn, opinionOn, windowOf_append whole]

theorem elapsed_add_one (watched : Watched fresh scope start ticks opinions monitor closed) :
    (monitor.elapsed + 1).toNat = monitor.elapsed.toNat + 1 :=
  toNat_elapsed_succ (watched.interval ▸ watched.inside)

/-- What is kept when a tick closes the window are all samples of the window, and there are some. -/
theorem closes (watched : Watched fresh scope start ticks opinions monitor closed)
    (nonempty : states ≠ []) (room : fresh.HasRoomFor (ticks ++ [states]))
    (whole : (ticks ++ [states]).length = (closed + 1) * fresh.interval.toNat)
    {window : Window DriftSample}
    (recorded : states.foldl (·.record (UInt32.ofNat (start + ticks.length)) ·) monitor =
      { monitor with window }) :
    window.isEmpty = false ∧
      window.toList = (opinionOn scope start fresh.interval.toNat (ticks ++ [states]) closed).samples := by
  have rest : (ticks ++ [states]).drop (closed * fresh.interval.toNat) =
      windowOf fresh.interval.toNat (ticks ++ [states]) closed := by
    rw [windowOf, List.take_of_length_le]
    rw [List.length_drop, whole, Nat.succ_mul]
    omega
  have fits := room closed (Nat.le_of_eq whole.symm)
  rw [← rest] at fits
  have kept := watched.samples_record fits
  rw [recorded] at kept
  change window.toList = _ at kept
  refine ⟨?_, by rw [kept, opinionOn, rest]⟩
  have some : 0 < states.length := List.length_pos_iff.mpr nonempty
  have size := Window.length_toList window
  rw [kept, length_sampled, watched.drop_append, List.flatten_append, List.length_append,
    List.flatten_singleton] at size
  rw [Window.isEmpty, beq_eq_false_iff_ne]
  omega

/-- One more tick keeps the window open, or closes it with an opinion on it. -/
theorem watch (watched : Watched fresh scope start ticks opinions monitor closed)
    (nonempty : states ≠ []) (room : fresh.HasRoomFor (ticks ++ [states])) :
    ∃ closed', Watched fresh scope start (ticks ++ [states])
      (opinions ++ (monitor.watch scope (UInt32.ofNat (start + ticks.length)) states).1.toList)
      (monitor.watch scope (UInt32.ofNat (start + ticks.length)) states).2 closed' := by
  have recorded (fits : ((ticks ++ [states]).drop (closed * fresh.interval.toNat)).flatten.length ≤
      fresh.capacity) := watched.samples_record fits
  have count := watched.count
  have inside := watched.inside
  have elapsed := watched.elapsed_add_one
  obtain ⟨window, same⟩ := foldl_record monitor (UInt32.ofNat (start + ticks.length)) states
  rw [DriftMonitor.watch, same, endTick]
  rw [same] at recorded
  by_cases early : monitor.elapsed + 1 < monitor.interval
  · simp only [if_pos early, Option.toList_none, List.append_nil]
    rw [UInt32.lt_iff_toNat_lt, elapsed, watched.interval] at early
    refine ⟨closed, watched.capacity, watched.interval, ?_, ?_, recorded, watched.opinions_append⟩
    · rw [List.length_append, List.length_singleton, count, elapsed, Nat.add_assoc]
    · rw [elapsed]
      exact early
  · simp only [if_neg early]
    rw [UInt32.lt_iff_toNat_lt, elapsed, watched.interval] at early
    have whole : (ticks ++ [states]).length = (closed + 1) * fresh.interval.toNat := by
      rw [List.length_append, List.length_singleton, count, Nat.succ_mul]
      omega
    obtain ⟨filled, kept⟩ := watched.closes nonempty room whole same
    have last : start + ticks.length = start + (closed + 1) * fresh.interval.toNat - 1 := by
      rw [← whole, List.length_append, List.length_singleton]
      rfl
    simp only [filled, Bool.false_eq_true, if_false, Option.toList_some]
    refine ⟨closed + 1, watched.capacity, watched.interval, ?_, Nat.lt_of_le_of_lt (Nat.zero_le _) inside,
      fun _ => ?_, ?_⟩
    · rw [whole]
      rfl
    · rw [List.drop_of_length_le (Nat.le_of_eq whole)]
      rfl
    · rw [List.range_succ, List.map_append, ← watched.opinions_append, List.map_singleton,
        DriftMonitor.samples, kept, last]
      rfl

end Watched

end DriftMonitor

end Lockstep
