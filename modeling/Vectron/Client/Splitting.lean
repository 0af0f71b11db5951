import Vectron.Client.UpsertBatch
import Vectron.Foundation.Slices

/-! # The batches of the three clients

Each client cuts the points into batches with loops of its own: the Go client moves two indices over
the points, the JavaScript and the Python client append to a batch. They are the same cut, and the
workers of the latter two share it out without losing or repeating a batch.
-/

namespace Vectron.Client

open Foundation

variable {α : Type}

section Loops

variable (size : α → Nat) (batchSize : Nat) (maxBatchBytes : Int) (points : List α)

/-! ## Go -/

namespace Go

/-- `points[start:end]`. -/
def slice (start stop : Nat) : Option (List α) :=
  if start ≤ stop ∧ stop ≤ points.length then some ((points.take stop).drop start) else none

/-- The end of the batch that begins at `start`. -/
def batchEnd (start : Nat) : Nat → Int → Nat → Option Nat
  | 0, _, _ => none
  | rounds + 1, curBytes, stop =>
      if stop < points.length ∧ stop - start < batchSize then do
        let p ← points[stop]?
        if stop = start ∨ curBytes + size p ≤ maxBatchBytes then
          batchEnd start rounds (curBytes + size p) (stop + 1)
        else some stop
      else some stop

variable (failed : Nat → Bool)

/-- The batches that the loop comes to send, by bytes. A send waits for room in the channel, which
is what the runs of `Upload` are about. -/
def sendBytes : Nat → Nat → List (List α) → Option (List (List α))
  | 0, _, _ => none
  | rounds + 1, start, sent =>
      if start < points.length then
        if failed sent.length then some sent
        else do
          let stop ← batchEnd size batchSize maxBatchBytes points start (points.length + 1) 0 start
          let batch ← slice points start stop
          sendBytes rounds stop (sent ++ [batch])
      else some sent

/-- The batches that the loop comes to send, by number. -/
def sendCounts : Nat → Nat → List (List α) → Option (List (List α))
  | 0, _, _ => none
  | rounds + 1, i, sent =>
      if i < points.length then
        let stop := if i + batchSize > points.length then points.length else i + batchSize
        if failed sent.length then some sent
        else do
          let batch ← slice points i stop
          sendCounts rounds (i + batchSize) (sent ++ [batch])
      else some sent

/-- The batches that `UpsertBatch` comes to send when `firstErr` is set at some of its reads. -/
def split : Option (List (List α)) :=
  if maxBatchBytes ≤ 0 then sendCounts batchSize points failed (points.length + 1) 0 []
  else sendBytes size batchSize maxBatchBytes points failed (points.length + 1) 0 []

end Go

/-! ## JavaScript and Python -/

/-- The loop that fills one batch, and the index after it. -/
def fillBatch : Nat → List α → Int → Nat → Option (List α × Nat)
  | 0, _, _, _ => none
  | rounds + 1, batch, bytes, idx =>
      if idx < points.length ∧ batch.length < batchSize then do
        let p ← points[idx]?
        if batch.length = 0 ∨ bytes + size p ≤ maxBatchBytes then
          fillBatch rounds (batch ++ [p]) (bytes + size p) (idx + 1)
        else some (batch, idx)
      else some (batch, idx)

def fillBatches : Nat → Nat → List (List α) → Option (List (List α))
  | 0, _, _ => none
  | rounds + 1, idx, batches =>
      if idx < points.length then do
        let (batch, idx) ← fillBatch size batchSize maxBatchBytes points (points.length + 1) [] 0 idx
        fillBatches rounds idx (batches ++ [batch])
      else some batches

namespace JavaScript

/-- `points.slice(i, i + batchSize)`. -/
def sliceBatches : Nat → Nat → List (List α) → Option (List (List α))
  | 0, _, _ => none
  | rounds + 1, i, batches =>
      if i < points.length then
        sliceBatches rounds (i + batchSize) (batches ++ [(points.drop i).take batchSize])
      else some batches

def split : Option (List (List α)) :=
  if maxBatchBytes > 0 then
    fillBatches size batchSize maxBatchBytes points (points.length + 1) 0 []
  else sliceBatches batchSize points (points.length + 1) 0 []

end JavaScript

namespace Python

/-- `range(0, stop, step)`. -/
def range (stop step : Nat) : List Nat := (List.range ((stop + step - 1) / step)).map (· * step)

def split : Option (List (List α)) :=
  if maxBatchBytes ≠ 0 ∧ maxBatchBytes > 0 then
    fillBatches size batchSize maxBatchBytes points (points.length + 1) 0 []
  else
    some ((range points.length batchSize).map fun i => (points.drop i).take batchSize)

end Python

end Loops

/-! ## One cut -/

/-- The estimated size of a batch. -/
def batchBytes (size : α → Nat) (batch : List α) : Nat := (batch.map size).sum

/-- Whether a batch may take one more point. -/
def mayTake (size : α → Nat) (batchSize : Nat) (maxBatchBytes : Int) (batch : List α) (p : α) :
    Bool :=
  decide (batch.length < batchSize) &&
    (decide (batch.length = 0) || decide (maxBatchBytes ≤ 0) ||
      decide ((batchBytes size batch : Int) + size p ≤ maxBatchBytes))

variable {size : α → Nat} {batchSize : Nat} {maxBatchBytes : Int} {points : List α}

@[simp] theorem batchBytes_nil : batchBytes size [] = 0 := rfl

@[simp] theorem batchBytes_append (batch : List α) (p : α) :
    batchBytes size (batch ++ [p]) = batchBytes size batch + size p := by
  simp [batchBytes]

theorem mayTake_first (hsize : 1 ≤ batchSize) (p : α) :
    mayTake size batchSize maxBatchBytes [] p = true := by
  have hpos : 0 < batchSize := hsize
  simp [mayTake, hpos]

theorem mayTake_unlimited (hbytes : maxBatchBytes ≤ 0) (batch : List α) (p : α) :
    mayTake size batchSize maxBatchBytes batch p = decide (batch.length < batchSize) := by
  simp [mayTake, hbytes]

theorem mayTake_limited (hbytes : 0 < maxBatchBytes) (batch : List α) (p : α) :
    mayTake size batchSize maxBatchBytes batch p = true ↔
      batch.length < batchSize ∧
        (batch.length = 0 ∨ (batchBytes size batch : Int) + size p ≤ maxBatchBytes) := by
  have hpos : ¬ maxBatchBytes ≤ 0 := by omega
  simp [mayTake, hpos]

/-- Without a byte limit a batch is the next points, as many as it may hold. -/
theorem cut_unlimited (hsize : 1 ≤ batchSize) (hbytes : maxBatchBytes ≤ 0) {i : Nat}
    (hlt : i < points.length) :
    cut (mayTake size batchSize maxBatchBytes) (points.drop i) =
      (points.drop i).take batchSize ::
        cut (mayTake size batchSize maxBatchBytes) (points.drop (i + batchSize)) := by
  have hgrow := @grow_of_length _ (mayTake size batchSize maxBatchBytes) [] (points.drop i) _
    (mayTake_unlimited hbytes) (Nat.zero_le _)
  rw [List.drop_eq_getElem_cons hlt] at hgrow ⊢
  rw [cut_cons (mayTake_first hsize _), hgrow, List.length_nil, Nat.sub_zero, List.nil_append,
    ← List.drop_eq_getElem_cons hlt, List.drop_drop]

theorem fillBatch_eq (hbytes : 0 < maxBatchBytes) {rounds idx : Nat} {batch : List α}
    (hidx : idx ≤ points.length) (hrounds : points.length < idx + rounds) :
    ∃ next, next ≤ points.length ∧
      fillBatch size batchSize maxBatchBytes points rounds batch (batchBytes size batch) idx =
        some ((grow (mayTake size batchSize maxBatchBytes) batch (points.drop idx)).1, next) ∧
      (grow (mayTake size batchSize maxBatchBytes) batch (points.drop idx)).2 =
        points.drop next := by
  induction rounds generalizing idx batch with
  | zero => omega
  | succ rounds ih =>
      rw [fillBatch]
      rcases Nat.lt_or_ge idx points.length with hlt | hge
      · rw [List.drop_eq_getElem_cons hlt, grow, List.getElem?_eq_getElem hlt]
        by_cases hlength : batch.length < batchSize
        · rw [if_pos ⟨hlt, hlength⟩]
          by_cases hbatch : batch.length = 0 ∨
              (batchBytes size batch : Int) + size points[idx] ≤ maxBatchBytes
          · rw [if_pos ((mayTake_limited hbytes _ _).mpr ⟨hlength, hbatch⟩)]
            have hrest := @ih (idx + 1) (batch ++ [points[idx]]) hlt (by omega)
            simp only [Option.bind_eq_bind, Option.bind_some, if_pos hbatch]
            rwa [batchBytes_append, Nat.cast_add] at hrest
          · rw [if_neg fun htake => hbatch ((mayTake_limited hbytes _ _).mp htake).2]
            simp only [Option.bind_eq_bind, Option.bind_some, if_neg hbatch]
            exact ⟨idx, hidx, rfl, (List.drop_eq_getElem_cons hlt).symm⟩
        · rw [if_neg fun hboth => hlength hboth.2,
            if_neg fun htake => hlength ((mayTake_limited hbytes _ _).mp htake).1]
          exact ⟨idx, hidx, rfl, (List.drop_eq_getElem_cons hlt).symm⟩
      · rw [if_neg fun hboth => absurd hboth.1 (by omega), List.drop_eq_nil_of_le hge, grow]
        exact ⟨idx, hidx, rfl, (List.drop_eq_nil_of_le hge).symm⟩

theorem fillBatches_eq (hsize : 1 ≤ batchSize) (hbytes : 0 < maxBatchBytes) {rounds idx : Nat}
    {batches : List (List α)} (hidx : idx ≤ points.length)
    (hrounds : points.length < idx + rounds) :
    fillBatches size batchSize maxBatchBytes points rounds idx batches =
      some (batches ++ cut (mayTake size batchSize maxBatchBytes) (points.drop idx)) := by
  induction rounds generalizing idx batches with
  | zero => omega
  | succ rounds ih =>
      rw [fillBatches]
      rcases Nat.lt_or_ge idx points.length with hlt | hge
      · obtain ⟨next, hnext, hfill, hrest⟩ := @fillBatch_eq _ size batchSize _ points hbytes
          (points.length + 1) idx [] hidx (by omega)
        have hshorter := @length_grow_lt _ (mayTake size batchSize maxBatchBytes)
          (points.drop (idx + 1)) points[idx] (mayTake_first hsize _)
        rw [← List.drop_eq_getElem_cons hlt, hrest, List.length_drop, List.length_drop] at hshorter
        have hcut : cut (mayTake size batchSize maxBatchBytes) (points.drop idx) =
            (grow (mayTake size batchSize maxBatchBytes) [] (points.drop idx)).1 ::
              cut (mayTake size batchSize maxBatchBytes) (points.drop next) := by
          rw [← hrest, List.drop_eq_getElem_cons hlt, cut_cons (mayTake_first hsize _)]
        rw [if_pos hlt, hcut]
        rw [batchBytes_nil, Nat.cast_zero] at hfill
        rw [hfill]
        have hothers := @ih next (batches ++
          [(grow (mayTake size batchSize maxBatchBytes) [] (points.drop idx)).1]) hnext (by omega)
        simpa using hothers
      · simp [Nat.not_lt.mpr hge, List.drop_eq_nil_of_le hge, cut]

namespace JavaScript

theorem sliceBatches_eq (hsize : 1 ≤ batchSize) (hbytes : maxBatchBytes ≤ 0) {rounds i : Nat}
    {batches : List (List α)} (hpos : 0 < rounds) (hrounds : points.length < i + rounds) :
    sliceBatches batchSize points rounds i batches =
      some (batches ++ cut (mayTake size batchSize maxBatchBytes) (points.drop i)) := by
  induction rounds generalizing i batches with
  | zero => omega
  | succ rounds ih =>
      rw [sliceBatches]
      rcases Nat.lt_or_ge i points.length with hlt | hge
      · rw [if_pos hlt, ih (by omega) (by omega), cut_unlimited hsize hbytes hlt,
          List.append_assoc]
        rfl
      · simp [Nat.not_lt.mpr hge, List.drop_eq_nil_of_le hge, cut]

theorem split_eq (hsize : 1 ≤ batchSize) :
    split size batchSize maxBatchBytes points =
      some (cut (mayTake size batchSize maxBatchBytes) points) := by
  unfold split
  split
  next hbytes =>
    rw [fillBatches_eq hsize hbytes (Nat.zero_le _) (by omega)]
    rfl
  next hbytes =>
    rw [@sliceBatches_eq _ size _ maxBatchBytes _ hsize (by omega) _ _ _ (by omega) (by omega)]
    rfl

end JavaScript

namespace Python

theorem map_range_eq (hsize : 1 ≤ batchSize) (hbytes : maxBatchBytes ≤ 0) {i count : Nat}
    (hcount : points.length ≤ (i + count) * batchSize)
    (hlast : ∀ j, j < count → (i + j) * batchSize < points.length) :
    ((List.range' i count).map (· * batchSize)).map (fun i => (points.drop i).take batchSize) =
      cut (mayTake size batchSize maxBatchBytes) (points.drop (i * batchSize)) := by
  induction count generalizing i with
  | zero =>
      rw [Nat.add_zero] at hcount
      rw [List.drop_eq_nil_of_le hcount]
      rfl
  | succ count ih =>
      have hlt : i * batchSize < points.length := hlast 0 (by omega)
      rw [List.range'_succ, List.map_cons, List.map_cons, cut_unlimited hsize hbytes hlt,
        ← Nat.succ_mul, ih]
      · rwa [Nat.succ_add_eq_add_succ]
      · intro j hj
        rw [Nat.succ_add_eq_add_succ]
        exact hlast (j + 1) (by omega)

theorem split_eq (hsize : 1 ≤ batchSize) :
    split size batchSize maxBatchBytes points =
      some (cut (mayTake size batchSize maxBatchBytes) points) := by
  unfold split
  split
  next hbytes =>
    rw [fillBatches_eq hsize hbytes.2 (Nat.zero_le _) (by omega)]
    rfl
  next hbytes =>
    have hle : maxBatchBytes ≤ 0 := by omega
    rw [range, List.range_eq_range', @map_range_eq _ size _ maxBatchBytes _ hsize hle]
    · rw [Nat.zero_mul, List.drop_zero]
    · have hlt := Nat.lt_div_mul_add (a := points.length + batchSize - 1) hsize
      rw [Nat.zero_add]
      omega
    · intro j hj
      have hmul : (j + 1) * batchSize ≤ points.length + batchSize - 1 :=
        (Nat.mul_le_mul_right _ hj).trans (Nat.div_mul_le_self _ _)
      rw [Nat.succ_mul] at hmul
      rw [Nat.zero_add]
      omega

end Python

namespace Go

theorem slice_of_le {start stop : Nat} (hle : start ≤ stop) (hstop : stop ≤ points.length) :
    slice points start stop = some ((points.take stop).drop start) :=
  if_pos ⟨hle, hstop⟩

theorem take_drop_succ {start stop : Nat} (hle : start ≤ stop) (hlt : stop < points.length) :
    (points.take (stop + 1)).drop start = (points.take stop).drop start ++ [points[stop]] := by
  rw [List.take_succ_eq_append_getElem hlt, List.drop_append_of_le_length]
  rw [List.length_take]
  omega

theorem batchEnd_eq (hbytes : 0 < maxBatchBytes) {start rounds stop : Nat} {batch : List α}
    (hbatch : (points.take stop).drop start = batch) (hle : start ≤ stop)
    (hstop : stop ≤ points.length) (hrounds : points.length < stop + rounds) :
    ∃ last, start ≤ last ∧ last ≤ points.length ∧
      batchEnd size batchSize maxBatchBytes points start rounds (batchBytes size batch) stop =
        some last ∧
      grow (mayTake size batchSize maxBatchBytes) batch (points.drop stop) =
        ((points.take last).drop start, points.drop last) := by
  induction rounds generalizing stop batch with
  | zero => omega
  | succ rounds ih =>
      have hlength : batch.length = stop - start := by
        rw [← hbatch, List.length_drop, List.length_take]
        omega
      rw [batchEnd]
      rcases Nat.lt_or_ge stop points.length with hlt | hge
      · rw [List.drop_eq_getElem_cons hlt, grow, List.getElem?_eq_getElem hlt]
        by_cases hcount : stop - start < batchSize
        · rw [if_pos ⟨hlt, hcount⟩]
          simp only [Option.bind_eq_bind, Option.bind_some]
          by_cases htake : stop = start ∨
              (batchBytes size batch : Int) + size points[stop] ≤ maxBatchBytes
          · have hmay : mayTake size batchSize maxBatchBytes batch points[stop] = true := by
              apply (mayTake_limited hbytes _ _).mpr
              exact ⟨by omega, htake.imp_left fun heq => by omega⟩
            rw [if_pos htake, if_pos hmay]
            have hrest := @ih (stop + 1) (batch ++ [points[stop]])
              (by rw [take_drop_succ hle hlt, hbatch]) (by omega) hlt (by omega)
            rwa [batchBytes_append, Nat.cast_add] at hrest
          · have hmay : ¬ mayTake size batchSize maxBatchBytes batch points[stop] = true := by
              intro hmay
              have hboth := ((mayTake_limited hbytes _ _).mp hmay).2
              exact htake (hboth.imp_left fun hzero => by omega)
            rw [if_neg htake, if_neg hmay, hbatch.symm]
            exact ⟨stop, hle, hstop, rfl, by rw [List.drop_eq_getElem_cons hlt]⟩
        · rw [if_neg fun hboth => hcount hboth.2, if_neg]
          · exact ⟨stop, hle, hstop, rfl, by rw [hbatch, List.drop_eq_getElem_cons hlt]⟩
          · intro hmay
            have hless := ((mayTake_limited hbytes _ _).mp hmay).1
            omega
      · rw [if_neg fun hboth => absurd hboth.1 (by omega), List.drop_eq_nil_of_le hge, grow]
        exact ⟨stop, hle, hstop, rfl, by rw [hbatch, List.drop_eq_nil_of_le hge]⟩

/-- The batches before the first read of `firstErr` that finds one. -/
def untilFailed (failed : Nat → Bool) : Nat → List (List α) → List (List α)
  | _, [] => []
  | sent, batch :: rest => if failed sent then [] else batch :: untilFailed failed (sent + 1) rest

variable {failed : Nat → Bool}

theorem sendBytes_eq (hsize : 1 ≤ batchSize) (hbytes : 0 < maxBatchBytes) {rounds start : Nat}
    {sent : List (List α)} (hstart : start ≤ points.length)
    (hrounds : points.length < start + rounds) :
    sendBytes size batchSize maxBatchBytes points failed rounds start sent =
      some (sent ++ untilFailed failed sent.length
        (cut (mayTake size batchSize maxBatchBytes) (points.drop start))) := by
  induction rounds generalizing start sent with
  | zero => omega
  | succ rounds ih =>
      rw [sendBytes]
      rcases Nat.lt_or_ge start points.length with hlt | hge
      · obtain ⟨last, hlast, hle, hend, hgrow⟩ := @batchEnd_eq _ size batchSize _ points hbytes
          start (points.length + 1) start [] (by simp) le_rfl hstart (by omega)
        have hshorter := @length_grow_lt _ (mayTake size batchSize maxBatchBytes)
          (points.drop (start + 1)) points[start] (mayTake_first hsize _)
        rw [← List.drop_eq_getElem_cons hlt, hgrow, List.length_drop, List.length_drop] at hshorter
        have hcut : cut (mayTake size batchSize maxBatchBytes) (points.drop start) =
            (points.take last).drop start ::
              cut (mayTake size batchSize maxBatchBytes) (points.drop last) := by
          rw [List.drop_eq_getElem_cons hlt, cut_cons (mayTake_first hsize _),
            ← List.drop_eq_getElem_cons hlt, hgrow]
        rw [if_pos hlt, hcut, untilFailed]
        by_cases hfailed : failed sent.length = true
        · simp [hfailed]
        · rw [if_neg hfailed, if_neg hfailed]
          rw [batchBytes_nil, Nat.cast_zero] at hend
          have hothers := @ih last (sent ++ [(points.take last).drop start]) hle (by omega)
          simp only [Option.bind_eq_bind, hend, slice_of_le hlast hle, Option.bind_some, hothers]
          simp
      · simp [Nat.not_lt.mpr hge, List.drop_eq_nil_of_le hge, cut, untilFailed]

theorem sendCounts_eq (hsize : 1 ≤ batchSize) (hbytes : maxBatchBytes ≤ 0) {rounds i : Nat}
    {sent : List (List α)} (hpos : 0 < rounds) (hrounds : points.length < i + rounds) :
    sendCounts batchSize points failed rounds i sent =
      some (sent ++ untilFailed failed sent.length
        (cut (mayTake size batchSize maxBatchBytes) (points.drop i))) := by
  induction rounds generalizing i sent with
  | zero => omega
  | succ rounds ih =>
      rw [sendCounts]
      rcases Nat.lt_or_ge i points.length with hlt | hge
      · have hslice : slice points i
            (if i + batchSize > points.length then points.length else i + batchSize) =
            some ((points.drop i).take batchSize) := by
          split
          next hlong =>
            rw [slice_of_le hlt.le le_rfl, List.take_length, List.take_of_length_le]
            rw [List.length_drop]
            omega
          next hshort => rw [slice_of_le (by omega) (by omega), List.drop_take,
            Nat.add_sub_cancel_left]
        rw [if_pos hlt, cut_unlimited hsize hbytes hlt, untilFailed]
        by_cases hfailed : failed sent.length = true
        · simp [hfailed]
        · simp only [if_neg hfailed, Option.bind_eq_bind, hslice, Option.bind_some]
          rw [ih (by omega) (by omega)]
          simp
      · simp [Nat.not_lt.mpr hge, List.drop_eq_nil_of_le hge, cut, untilFailed]

theorem split_eq (hsize : 1 ≤ batchSize) :
    split size batchSize maxBatchBytes points failed =
      some (untilFailed failed 0 (cut (mayTake size batchSize maxBatchBytes) points)) := by
  unfold split
  split
  next hbytes =>
    rw [@sendCounts_eq _ size _ maxBatchBytes _ _ hsize hbytes _ _ _ (by omega) (by omega)]
    rfl
  next hbytes =>
    rw [sendBytes_eq hsize (by omega) (Nat.zero_le _) (by omega)]
    rfl

theorem untilFailed_take {n sent : Nat} {batches : List (List α)} (hle : n ≤ batches.length)
    (hbefore : ∀ i < n, failed (sent + i) = false)
    (hat : n < batches.length → failed (sent + n) = true) :
    untilFailed failed sent batches = batches.take n := by
  induction batches generalizing n sent with
  | nil => simp [untilFailed]
  | cons batch rest ih =>
      rw [untilFailed]
      cases n with
      | zero =>
          have hfirst : failed sent = true := hat (Nat.zero_lt_succ _)
          rw [if_pos hfirst]
          rfl
      | succ n =>
          have hfirst : failed sent = false := hbefore 0 (Nat.zero_lt_succ _)
          rw [if_neg (by rw [hfirst]; exact Bool.false_ne_true), List.take_succ_cons,
            ih (Nat.le_of_succ_le_succ hle)]
          · intro i hi
            rw [Nat.succ_add_eq_add_succ]
            exact hbefore (i + 1) (Nat.succ_lt_succ hi)
          · intro hlt
            rw [Nat.succ_add_eq_add_succ]
            exact hat (Nat.succ_lt_succ hlt)

end Go

/-! ## The partition -/

/-- The points in their order, in batches that keep the limits and cannot take one point more. -/
structure Partition (size : α → Nat) (batchSize : Nat) (maxBatchBytes : Int) (points : List α)
    (batches : List (List α)) : Prop where
  flatten : batches.flatten = points
  length : ∀ batch ∈ batches, 1 ≤ batch.length ∧ batch.length ≤ batchSize
  bytes : 0 < maxBatchBytes → ∀ batch ∈ batches,
    batch.length = 1 ∨ (batchBytes size batch : Int) ≤ maxBatchBytes
  maximal : batches.IsChain fun batch next =>
    batch.length = batchSize ∨
      (0 < maxBatchBytes ∧ ∃ p ∈ next.head?, maxBatchBytes < batchBytes size batch + size p)

theorem length_of_mem_cut (hsize : 1 ≤ batchSize) :
    ∀ batch ∈ cut (mayTake size batchSize maxBatchBytes) points,
      1 ≤ batch.length ∧ batch.length ≤ batchSize := by
  apply mem_cut
  · intro p
    simpa using hsize
  · intro batch p _ htake
    simp only [mayTake, Bool.and_eq_true, decide_eq_true_eq] at htake
    rw [List.length_append, List.length_singleton]
    omega

theorem bytes_of_mem_cut (hbytes : 0 < maxBatchBytes) :
    ∀ batch ∈ cut (mayTake size batchSize maxBatchBytes) points,
      batch.length = 1 ∨ (batchBytes size batch : Int) ≤ maxBatchBytes := by
  apply mem_cut
  · intro p
    exact Or.inl rfl
  · intro batch p _ htake
    rw [batchBytes_append, Nat.cast_add, List.length_append, List.length_singleton]
    exact ((mayTake_limited hbytes _ _).mp htake).2.imp_left fun hzero => by omega

theorem partition_cut (hsize : 1 ≤ batchSize) :
    Partition size batchSize maxBatchBytes points
      (cut (mayTake size batchSize maxBatchBytes) points) where
  flatten := cut_flatten points
  length := length_of_mem_cut hsize
  bytes := bytes_of_mem_cut
  maximal := by
    apply (isChain_cut points).imp_of_mem_imp
    intro batch next hbatch hnext hstuck
    obtain ⟨hpos, hle⟩ := length_of_mem_cut hsize batch hbatch
    by_cases hfull : batch.length = batchSize
    · exact Or.inl hfull
    · right
      have hsome : ∃ p, next.head? = some p := by
        cases next with
        | nil => exact absurd (length_of_mem_cut hsize [] hnext).1 (by simp)
        | cons p rest => exact ⟨p, rfl⟩
      obtain ⟨p, hp⟩ := hsome
      have hnot := hstuck p hp
      have hzero : batch.length ≠ 0 := by omega
      have hlt : batch.length < batchSize := by omega
      simp only [mayTake, hlt, hzero, decide_true, decide_false, Bool.true_and, Bool.false_or,
        Bool.or_eq_false_iff, decide_eq_false_iff_not, not_le] at hnot
      exact ⟨hnot.1, p, hp, hnot.2⟩

/-- The batches of an upload of the Go client. -/
theorem batches_eq_cut (opts : Option BatchOptions) (points : List (Option Point)) :
    batches opts points =
      cut (mayTake estimatePointBytes (Client.batchSize opts) (Client.maxBatchBytes opts)) points := by
  have hfrom : ∀ rest batch : List (Option Point), batch ≠ [] → cutFrom opts batch rest =
      cutOn (mayTake estimatePointBytes (Client.batchSize opts) (Client.maxBatchBytes opts)) batch
        rest := by
    intro rest
    induction rest with
    | nil => exact fun batch _ => rfl
    | cons p rest ih =>
        intro batch hbatch
        have hmay : mayTake estimatePointBytes (Client.batchSize opts) (Client.maxBatchBytes opts)
            batch p = fits opts batch p := by
          rw [mayTake, fits, batchBytes]
          congr 1
          simp only [List.length_eq_zero_iff, hbatch, decide_false, Bool.false_or]
          congr 2
          · exact propext (by omega)
          · exact propext (by omega)
        rw [cutFrom, cutOn, ih _ (by simp), ih _ (by simp), hmay]
  cases points with
  | nil => rfl
  | cons p rest => exact hfrom rest [p] (by simp)

/-! ## The workers -/

section Workers

variable {β : Type}

/-- `batches.filter((_, idx) => idx % concurrency === i)`, or all batches for one caller. -/
def JavaScript.shards (concurrency : Nat) (batches : List β) : List (List β) :=
  if concurrency = 1 then [batches]
  else (List.range concurrency).map fun i =>
    (batches.zipIdx.filter fun batch => batch.2 % concurrency = i).map Prod.fst

/-- `batches[i::concurrency]`. -/
def Python.stride (batches : List β) (i concurrency : Nat) : List β :=
  (List.range ((batches.length + concurrency - 1 - i) / concurrency)).filterMap fun j =>
    batches[i + j * concurrency]?

/-- The chunk of each thread, or all batches for the caller. -/
def Python.chunks (concurrency : Nat) (batches : List β) : List (List β) :=
  if concurrency = 1 then [batches]
  else (List.range concurrency).map fun i => Python.stride batches i concurrency

/-- The batches at some positions. -/
def pick (batches : List β) (positions : List Nat) : List β := positions.filterMap (batches[·]?)

/-- Every position is given to one worker, once. -/
def Distributes (concurrency : Nat) (batches : List β) (workers : List (List β)) : Prop :=
  ∃ positions : List (List Nat), positions.length = concurrency ∧
    workers = positions.map (pick batches) ∧ positions.flatten.Perm (List.range batches.length)

/-- Reading a list at the positions of another numbering. -/
theorem pick_filter_eq (batches front : List β) (keep : Nat → Bool) :
    pick (front ++ batches) ((List.range' front.length batches.length).filter keep) =
      ((batches.zipIdx front.length).filter fun batch => keep batch.2).map Prod.fst := by
  induction batches generalizing front with
  | nil => rfl
  | cons batch rest ih =>
      have hrest := ih (front ++ [batch])
      rw [List.append_assoc, List.singleton_append, List.length_append, List.length_singleton]
        at hrest
      rw [List.length_cons, List.range'_succ, List.zipIdx_cons, List.filter_cons, List.filter_cons]
      by_cases hkeep : keep front.length = true
      · simp only [hkeep, if_true, List.map_cons, ← hrest]
        simp [pick]
      · simp only [hkeep, Bool.false_eq_true, if_false, ← hrest]

theorem pick_range (batches : List β) (n : Nat) : pick batches (List.range n) = batches.take n := by
  induction n with
  | zero => rfl
  | succ n ih =>
      rw [List.range_succ, pick, List.filterMap_append, List.take_add_one, ← ih]
      cases hbatch : batches[n]? <;> simp [pick, hbatch]

theorem distributes_one (batches : List β) : Distributes 1 batches [batches] := by
  refine ⟨[List.range batches.length], rfl, ?_, ?_⟩
  · rw [List.map_singleton, pick_range, List.take_length]
  · simp

/-- Positions are shared out by their remainders. -/
theorem distributes_of_mod {concurrency : Nat} {batches : List β} (hpos : 1 ≤ concurrency)
    {positions : Nat → List Nat} (hnodup : ∀ i, (positions i).Nodup)
    (hmem : ∀ i < concurrency, ∀ k,
      k ∈ positions i ↔ k < batches.length ∧ k % concurrency = i) :
    Distributes concurrency batches
      ((List.range concurrency).map fun i => pick batches (positions i)) := by
  refine ⟨(List.range concurrency).map positions, by simp, by simp, ?_⟩
  apply (List.perm_ext_iff_of_nodup ?_ List.nodup_range).mpr
  · intro k
    simp only [List.mem_flatten, List.mem_map, List.mem_range]
    constructor
    · rintro ⟨_, ⟨i, hi, rfl⟩, hk⟩
      exact ((hmem i hi k).mp hk).1
    · intro hk
      have hmod : k % concurrency < concurrency := Nat.mod_lt _ hpos
      exact ⟨_, ⟨_, hmod, rfl⟩, (hmem _ hmod k).mpr ⟨hk, rfl⟩⟩
  · rw [List.nodup_flatten]
    constructor
    · intro part hpart
      obtain ⟨i, _, rfl⟩ := List.mem_map.mp hpart
      exact hnodup i
    · apply List.pairwise_map.mpr
      apply List.Pairwise.imp_of_mem _ List.nodup_range
      intro i j hi hj hne k hki hkj
      rw [List.mem_range] at hi hj
      exact hne (((hmem i hi k).mp hki).2.symm.trans ((hmem j hj k).mp hkj).2)

theorem JavaScript.shards_distributes {concurrency : Nat} (hpos : 1 ≤ concurrency)
    (batches : List β) : Distributes concurrency batches (shards concurrency batches) := by
  unfold shards
  split
  next hone =>
    subst hone
    exact distributes_one batches
  next =>
    have hshard : (fun i => (batches.zipIdx.filter fun batch =>
        batch.2 % concurrency = i).map Prod.fst) = fun i =>
        pick batches ((List.range batches.length).filter fun k => k % concurrency = i) := by
      funext i
      rw [List.range_eq_range']
      exact (pick_filter_eq batches [] fun k => decide (k % concurrency = i)).symm
    rw [hshard]
    apply distributes_of_mod hpos
    · exact fun i => List.nodup_range.filter _
    · simp

theorem Python.stride_eq (batches : List β) (i concurrency : Nat) :
    stride batches i concurrency =
      pick batches ((List.range ((batches.length + concurrency - 1 - i) / concurrency)).map
        fun j => i + j * concurrency) := by
  rw [stride, pick, List.filterMap_map]
  rfl

theorem Python.chunks_distributes {concurrency : Nat} (hpos : 1 ≤ concurrency)
    (batches : List β) : Distributes concurrency batches (chunks concurrency batches) := by
  unfold chunks
  split
  next hone =>
    subst hone
    exact distributes_one batches
  next =>
    simp only [stride_eq]
    apply distributes_of_mod hpos
    · intro i
      apply List.Nodup.map _ List.nodup_range
      intro j k heq
      exact Nat.eq_of_mul_eq_mul_right hpos (Nat.add_left_cancel heq)
    · intro i hi k
      simp only [List.mem_map, List.mem_range]
      constructor
      · rintro ⟨j, hj, rfl⟩
        have hmul : (j + 1) * concurrency ≤ batches.length + concurrency - 1 - i :=
          (Nat.mul_le_mul_right _ hj).trans (Nat.div_mul_le_self _ _)
        rw [Nat.succ_mul] at hmul
        rw [Nat.add_mul_mod_self_right, Nat.mod_eq_of_lt hi]
        exact ⟨by omega, rfl⟩
      · rintro ⟨hk, rfl⟩
        have hdiv := Nat.mod_add_div k concurrency
        rw [Nat.mul_comm] at hdiv
        refine ⟨k / concurrency, ?_, hdiv⟩
        apply (Nat.le_div_iff_mul_le hpos).mpr
        rw [Nat.succ_mul]
        omega

end Workers

/-! ## The sends of an upload -/

namespace Upload

variable {E : Type} {capacity batches : Nat} {answers : Nat → Except E (BitVec 32)}

/-- The batch that a step puts into the channel. -/
def sends (state : Upload E) : Move → List Nat
  | .worker _ => []
  | .producer =>
      match state.producer with
      | .sending next => [next]
      | .checking _ | .waiting | .returned _ => []

/-- The batches that a run puts into the channel. -/
def sent {β : Type} (capacity : Nat) (batches : List β) (answers : Nat → Except E (BitVec 32))
    (moves : List Move) : List β :=
  pick batches (Moves.seen sends (move capacity batches.length answers) (start capacity) moves)

/-- The batches were sent in order, and without an error the loop is left after the last one. -/
def Told (batches : Nat) (state : Upload E) (sent : List Nat) : Prop :=
  ∃ n, sent = List.range n ∧ state.producer.Sent batches n ∧
    (state.closed = true → state.firstErr = none → n = batches)

theorem work_keeps {state next : Upload E} {w : Nat} (hwork : state.work answers w = some next) :
    next.producer = state.producer ∧ (next.firstErr = none → state.firstErr = none) := by
  unfold work place at hwork
  grind

theorem told_step (state : Upload E) (step : Move) (next : Upload E) (sent : List Nat)
    (htold : Told batches state sent)
    (hmove : state.move capacity batches answers step = some next) :
    Told batches next (sent ++ sends state step) := by
  obtain ⟨n, rfl, hplace, hwhole⟩ := htold
  cases step with
  | worker w =>
      obtain ⟨hproducer, herr⟩ := work_keeps hmove
      have hclosed : next.closed = state.closed := by rw [closed, closed, hproducer]
      exact ⟨n, List.append_nil _, hproducer ▸ hplace,
        fun hleft hnone => hwhole (hclosed ▸ hleft) (herr hnone)⟩
  | producer =>
      unfold move produce at hmove
      cases hproducer : state.producer with
      | checking i =>
          rw [hproducer] at hplace
          simp only [hproducer] at hmove
          simp only [sends, hproducer, List.append_nil]
          split at hmove
          next hmore =>
            obtain rfl := Option.some.inj hmove
            exact ⟨n, rfl, ⟨hplace.1, hplace.1 ▸ hmore.1⟩,
              fun hleft => absurd hleft Bool.false_ne_true⟩
          next hstop =>
            obtain rfl := Option.some.inj hmove
            refine ⟨n, rfl, hplace.2, fun _ hnone => le_antisymm hplace.2 ?_⟩
            by_contra hlt
            exact hstop ⟨hplace.1 ▸ not_le.mp hlt, Option.isNone_iff_eq_none.mpr hnone⟩
      | sending i =>
          rw [hproducer] at hplace
          obtain ⟨rfl, hlt⟩ := hplace
          simp only [hproducer] at hmove
          split at hmove
          next =>
            obtain rfl := Option.some.inj hmove
            exact ⟨i + 1, by simp [sends, hproducer, List.range_succ], ⟨rfl, hlt⟩,
              fun hleft => absurd hleft Bool.false_ne_true⟩
          next => cases hmove
      | waiting =>
          rw [hproducer] at hplace
          simp only [hproducer] at hmove
          simp only [sends, hproducer, List.append_nil]
          split at hmove
          next =>
            obtain rfl := Option.some.inj hmove
            exact ⟨n, rfl, hplace, fun _ => hwhole (by rw [closed, hproducer])⟩
          next => cases hmove
      | returned result => simp [hproducer] at hmove

/-- What a run of an upload makes of the loop of the Go client that cuts `points`: it sends the
batches in order, and once it has left the loop, those before a read that found an error. It is
stuck in the loop only behind a batch that failed early. -/
structure Runs (size : α → Nat) (batchSize : Nat) (maxBatchBytes : Int) (points : List α)
    (batches : List (List α)) (capacity : Nat) (answers : Nat → Except E (BitVec 32))
    (moves : List Move) (last : Upload E) : Prop where
  initial : sent capacity batches answers moves <+: batches
  left : last.closed = true → Go.split size batchSize maxBatchBytes points
    (fun i => decide (i = (sent capacity batches answers moves).length)) =
      some (sent capacity batches answers moves)
  whole : last.closed = true → sent capacity batches answers moves = batches ∨
    ∃ k < batches.length, ∃ err, answers k = .error err
  bounded : moves.length ≤ 5 * batches.length + capacity + 2
  ends : Moves.Stalled (move capacity batches.length answers) last →
    last.closed = true ∨ 2 * capacity < batches.length ∧
      ∃ k, k + capacity + 1 < batches.length ∧ ∃ err, answers k = .error err

theorem sent_le {producer : Producer E} {sent : Nat} (hsent : producer.Sent batches sent) :
    sent ≤ batches := by
  cases producer with
  | checking i => exact hsent.2
  | sending i => exact hsent.2.le
  | waiting
  | returned result => exact hsent

theorem runs_of_run (hsize : 1 ≤ batchSize) (hcapacity : 0 < capacity) {moves : List Move}
    {last : Upload E} {cutting : List (List α)}
    (hcutting : cutting = cut (mayTake size batchSize maxBatchBytes) points)
    (hrun : Moves.run (move capacity cutting.length answers) (start capacity) moves = some last) :
    Runs size batchSize maxBatchBytes points cutting capacity answers moves last := by
  have hstart : Told cutting.length (start capacity : Upload E) [] :=
    ⟨0, rfl, ⟨rfl, Nat.zero_le _⟩, nofun⟩
  obtain ⟨n, hn, hplace, hwhole⟩ := Moves.run_seen told_step hstart hrun
  obtain ⟨⟨taken, hfed⟩, hworkers⟩ := fed_of_run hrun
  have hle := sent_le hplace
  have hsent : sent capacity cutting answers moves = cutting.take n := by
    rw [sent, ← pick_range, ← hn, List.nil_append]
  constructor
  case initial =>
    rw [hsent]
    exact List.take_prefix n cutting
  case left =>
    intro hclosed
    rw [Go.split_eq hsize, hsent, ← hcutting, List.length_take_of_le hle, Go.untilFailed_take hle]
    · intro i hi
      exact decide_eq_false (by omega)
    · exact fun _ => decide_eq_true (Nat.zero_add n)
  case whole =>
    intro hclosed
    cases herr : last.firstErr with
    | none => exact Or.inl (by rw [hsent, hwhole hclosed herr, List.take_length])
    | some err =>
        obtain ⟨k, hk, hanswer⟩ := hfed.failed (by simp [herr])
        exact Or.inr ⟨k, by have := sent_le hfed.sent; omega, hanswer⟩
  case bounded => exact length_le_of_run hrun
  case ends =>
    intro hstalled
    by_cases hleft : last.closed = true
    · exact Or.inl hleft
    · right
      obtain ⟨i, hproducer, hfull, hdone⟩ := blocked_of_stalled hcapacity (stalled_iff.mp hstalled)
        fun result hresult => hleft (by simp [closed, hresult])
      exact hfed.bound_of_blocked hcapacity hworkers hproducer hfull hdone

end Upload

end Vectron.Client
