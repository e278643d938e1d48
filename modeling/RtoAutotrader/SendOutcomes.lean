import RtoAutotrader.ExecutorRuns
import RtoAutotrader.OrderHistory
import RtoAutotrader.Outbound

namespace RtoAutotrader

/-- What `send` returns for a message: the bytes the socket took, or an error. The code
looks at neither. -/
inductive SendResult
  | accepted (count : Nat)
  | failed
  deriving DecidableEq, Repr

def SendResult.count : SendResult → Nat
  | .accepted count => count
  | .failed => 0

structure SendRecord where
  request : Request
  result : SendResult
  deriving DecidableEq, Repr

namespace SendRecord

def accepted (record : SendRecord) : List UInt8 :=
  record.request.command.bytes.take record.result.count

def Whole (record : SendRecord) : Prop := record.accepted = record.request.command.bytes

instance (record : SendRecord) : Decidable record.Whole :=
  inferInstanceAs (Decidable (record.accepted = record.request.command.bytes))

theorem accepted_part (record : SendRecord) :
    record.accepted <+: record.request.command.bytes := List.take_prefix _ _

theorem Whole.ne_nil {record : SendRecord} (h : record.Whole) : record.accepted ≠ [] := by
  rw [h]
  exact Command.bytes_ne_nil _

end SendRecord

/-- The sends of a log, of which the i-th has the i-th result. -/
def sends (results : Nat → SendResult) (log : List Request) : List SendRecord :=
  log.zipIdx.map fun p => ⟨p.1, results p.2⟩

def acceptedBytes (records : List SendRecord) : List UInt8 := records.flatMap SendRecord.accepted

/-- The accepted bytes are the messages that were accepted as a whole, one after the
other, and then a part of one message. -/
def Framed (records : List SendRecord) : Prop :=
  ∃ (rest : List UInt8) (command : Command), rest <+: command.bytes ∧ rest ≠ command.bytes ∧
    acceptedBytes records =
      (records.filter fun record => record.Whole).flatMap
        (fun record => record.request.command.bytes) ++ rest

/-- Once a message was accepted in part, no byte of a later one is. -/
def NothingAfterPart (records : List SendRecord) : Prop :=
  records.Pairwise fun first second => ¬ first.Whole → first.accepted ≠ [] → second.accepted = []

def InsertsWhole (records : List SendRecord) : Prop :=
  ∀ record ∈ records, ∀ order, record.request.command.entry = .opened order → record.Whole

def CancelsWhole (records : List SendRecord) (side : Side) : Prop :=
  ∀ record ∈ records, record.request.side = side →
    ∀ id, record.request.command = .cancelOrder id → record.Whole

theorem mem_sends {results : Nat → SendResult} {log : List Request} {record : SendRecord} :
    record ∈ sends results log ↔
      ∃ i, log[i]? = some record.request ∧ record.result = results i := by
  simp only [sends, List.mem_map, Prod.exists, List.mem_zipIdx_iff_getElem?]
  constructor
  · rintro ⟨r, i, hi, rfl⟩
    exact ⟨i, hi, rfl⟩
  · rintro ⟨i, hi, hresult⟩
    refine ⟨record.request, i, hi, ?_⟩
    cases record
    simp_all

theorem sends_mono {results : Nat → SendResult} {before log : List Request} (h : before <+: log)
    {record : SendRecord} (hrecord : record ∈ sends results before) :
    record ∈ sends results log := by
  obtain ⟨i, hi, hresult⟩ := mem_sends.mp hrecord
  obtain ⟨more, rfl⟩ := h
  obtain ⟨hlt, _⟩ := List.getElem?_eq_some_iff.mp hi
  exact mem_sends.mpr ⟨i, by rw [List.getElem?_append_left hlt, hi], hresult⟩

theorem mem_sends_append {results : Nat → SendResult} {log more : List Request}
    {record : SendRecord} (h : record ∈ sends results (log ++ more)) :
    record ∈ sends results log ∨ record.request ∈ more := by
  obtain ⟨i, hi, hresult⟩ := mem_sends.mp h
  by_cases hlt : i < log.length
  · rw [List.getElem?_append_left hlt] at hi
    exact Or.inl (mem_sends.mpr ⟨i, hi, hresult⟩)
  · rw [List.getElem?_append_right (by omega)] at hi
    exact Or.inr (List.mem_of_getElem? hi)

theorem sends_request {results : Nat → SendResult} {log : List Request} {record : SendRecord}
    (h : record ∈ sends results log) : record.request ∈ log := by
  obtain ⟨i, hi, _⟩ := mem_sends.mp h
  exact List.mem_of_getElem? hi

theorem exists_record (results : Nat → SendResult) {log : List Request} {r : Request}
    (h : r ∈ log) : ∃ record ∈ sends results log, record.request = r := by
  obtain ⟨i, hi⟩ := List.mem_iff_getElem?.mp h
  exact ⟨⟨r, results i⟩, mem_sends.mpr ⟨i, hi, rfl⟩, rfl⟩

theorem record_of_place {results : Nat → SendResult} {log : List Request}
    {first second : SendRecord} {i j : Nat} (hi : log[i]? = some first.request)
    (hj : log[j]? = some second.request) (hfirst : first.result = results i)
    (hsecond : second.result = results j) (h : i = j) : first = second := by
  subst h
  obtain ⟨request, result⟩ := first
  obtain ⟨request', result'⟩ := second
  have hrequest : request = request' := Option.some.inj (hi.symm.trans hj)
  have hresult : result = result' := hfirst.trans hsecond.symm
  rw [hrequest, hresult]

theorem insert_record {results : Nat → SendResult} {log : List Request} (h : SoundLog log)
    {first second : SendRecord} (hfirst : first ∈ sends results log)
    (hsecond : second ∈ sends results log) {order order' : Order}
    (horder : first.request.command.entry = .opened order)
    (horder' : second.request.command.entry = .opened order') (hid : order.id = order'.id) :
    first = second := by
  obtain ⟨i, hi, hresult⟩ := mem_sends.mp hfirst
  obtain ⟨j, hj, hresult'⟩ := mem_sends.mp hsecond
  exact record_of_place hi hj hresult hresult' (h.insert_place hi hj horder horder' hid)

theorem cancel_record {results : Nat → SendResult} {log : List Request}
    (h : EveryPrefix SoundLog log) {first second : SendRecord} (hfirst : first ∈ sends results log)
    (hsecond : second ∈ sends results log) {id : Int}
    (hcancel : first.request.command = .cancelOrder id)
    (hcancel' : second.request.command = .cancelOrder id) : first = second := by
  obtain ⟨i, hi, hresult⟩ := mem_sends.mp hfirst
  obtain ⟨j, hj, hresult'⟩ := mem_sends.mp hsecond
  exact record_of_place hi hj hresult hresult' (cancel_place h hi hj hcancel hcancel')

theorem framed_nil : Framed [] :=
  ⟨[], .cancelOrder 0, List.nil_prefix, Ne.symm (Command.bytes_ne_nil _), rfl⟩

theorem silent_records {records : List SendRecord} (h : ∀ record ∈ records, record.accepted = []) :
    acceptedBytes records = [] ∧ (records.filter fun record => record.Whole) = [] := by
  refine ⟨List.flatMap_eq_nil_iff.mpr h, List.filter_eq_nil_iff.mpr ?_⟩
  intro record hrecord hwhole
  exact (of_decide_eq_true hwhole).ne_nil (h record hrecord)

/-- The exchange can cut the accepted bytes into messages if nothing follows a part of one. -/
theorem framed_of_nothingAfterPart {records : List SendRecord} (h : NothingAfterPart records) :
    Framed records := by
  induction records with
  | nil => exact framed_nil
  | cons record records ih =>
    obtain ⟨hfirst, hlater⟩ := List.pairwise_cons.mp h
    by_cases hwhole : record.Whole
    · obtain ⟨rest, command, hfront, hpart, hbytes⟩ := ih hlater
      refine ⟨rest, command, hfront, hpart, ?_⟩
      have hkept : ((record :: records).filter fun record => record.Whole) =
          record :: records.filter fun record => record.Whole :=
        List.filter_cons_of_pos (decide_eq_true hwhole)
      have haccepted : record.accepted = record.request.command.bytes := hwhole
      rw [hkept, List.flatMap_cons, acceptedBytes, List.flatMap_cons, haccepted, List.append_assoc,
        ← hbytes]
      rfl
    · have hdropped : ((record :: records).filter fun record => record.Whole) =
          records.filter fun record => record.Whole :=
        List.filter_cons_of_neg (by simpa using hwhole)
      rw [Framed, hdropped]
      by_cases hnone : record.accepted = []
      · obtain ⟨rest, command, hfront, hpart, hbytes⟩ := ih hlater
        refine ⟨rest, command, hfront, hpart, ?_⟩
        rw [acceptedBytes, List.flatMap_cons, hnone, List.nil_append, ← hbytes]
        rfl
      · obtain ⟨hbytes, hwholes⟩ := silent_records fun later hmem => hfirst later hmem hwhole hnone
        refine ⟨record.accepted, record.request.command, record.accepted_part, hwhole, ?_⟩
        rw [hwholes, acceptedBytes, List.flatMap_cons]
        simpa [acceptedBytes] using hbytes

def InsertAccepted (records : List SendRecord) (id : Int) : Prop :=
  ∃ record ∈ records, record.Whole ∧ ∃ order, record.request.command.entry = .opened order ∧
    order.id = id

def CancelAccepted (records : List SendRecord) (id : Int) : Prop :=
  ∃ record ∈ records, record.Whole ∧ record.request.command = .cancelOrder id

/-- What the executor records for a side is what reached the exchange. -/
structure SideInSync (s : SimpleExecutor) (records : List SendRecord) (side : Side) : Prop where
  held : s.id_ side ≠ 0 ↔
    InsertAccepted records (s.id_ side) ∧ ¬ CancelAccepted records (s.id_ side)
  empty : s.id_ side = 0 → ∀ record ∈ records, record.Whole →
    ∀ order, record.request.command.entry = .opened order → order.side = side →
    CancelAccepted records order.id

end RtoAutotrader
