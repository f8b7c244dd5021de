import Autodialer.CallEnd
import Autodialer.Format

/-!
# The text of a statement

`db_exec` prints a statement into a string before it puts it on the queue. The strings in it, a
contact and the number it was forwarded to, are printed as they are.

* `text_eq`: every statement has a text, its literal pieces and its arguments in their order.
-/

namespace Autodialer

/-! ## The texts -/

/-- The format that `db_exec` is called with, cut after each of its directives. -/
def Sql.format : Sql → List Char
  | .status .. =>
    ["update calls set  call_status=%d", ",call_duration=%d", ",connect_time=%ld",
      ",establish_time=%ld", " where id = %d"].flatMap String.toList
  | .final _ =>
    ["update calls set  retry_count=%d", ",call_status=%d", ",call_duration=%d",
      ",connect_time=%ld", ",establish_time=%ld", ",disconnect_time=%ld", ",disconnect_cause=%d",
      ",call_action_key=%d", ",call_action_type=%d", ",event_received=%d",
      "  where id = %d"].flatMap String.toList
  | .forwarding _ =>
    ["INSERT INTO call_forwarding set campaigns_id=%d", ", gateway_id=%d", ", call_from=%s",
      ", call_to=%s", ",call_status=%d", ",call_duration=%d", ",connect_time=%ld",
      ",establish_time=%ld", ",disconnect_time=%ld", ",disconnect_cause=%d"].flatMap String.toList

/-- The arguments after it. An id is a `uint32_t`, which `%d` prints as an `int`. -/
def Sql.args : Sql → List FormatArg
  | .status callStatus callDuration connectTime establishTime id =>
    [.signed callStatus.toNat, .signed callDuration, .signedLong connectTime,
      .signedLong establishTime, .signed (toInt32 id)]
  | .final u =>
    [.signed u.retryCount, .signed u.callStatus.toNat, .signed u.callDuration,
      .signedLong u.connectTime, .signedLong u.establishTime, .signedLong u.disconnectTime,
      .signed u.disconnectCause, .signed u.callActionKey, .signed u.callActionType,
      .signed u.eventReceived.toNat, .signed (toInt32 u.id)]
  | .forwarding f =>
    [.signed (toInt32 f.campaignsId), .signed (toInt32 f.gatewayId),
      .string (f.callFrom.map String.toList), .string (f.callTo.map String.toList),
      .signed f.callStatus.toNat, .signed f.callDuration, .signedLong f.connectTime,
      .signedLong f.establishTime, .signedLong f.disconnectTime, .signed f.disconnectCause]

/-- The string that `db_exec` puts on the queue. -/
def Sql.text (sql : Sql) : Option (List Char) := reVsdprintf sql.format sql.args

/-! ## Its pieces -/

/-- The statement as literal texts and conversions. -/
def Sql.pieces : Sql → List FormatPiece
  | .status callStatus callDuration connectTime establishTime id =>
    [.literal "update calls set  call_status=".toList, .int callStatus.toNat,
      .literal ",call_duration=".toList, .int callDuration,
      .literal ",connect_time=".toList, .long connectTime,
      .literal ",establish_time=".toList, .long establishTime,
      .literal " where id = ".toList, .int (toInt32 id)]
  | .final u =>
    [.literal "update calls set  retry_count=".toList, .int u.retryCount,
      .literal ",call_status=".toList, .int u.callStatus.toNat,
      .literal ",call_duration=".toList, .int u.callDuration,
      .literal ",connect_time=".toList, .long u.connectTime,
      .literal ",establish_time=".toList, .long u.establishTime,
      .literal ",disconnect_time=".toList, .long u.disconnectTime,
      .literal ",disconnect_cause=".toList, .int u.disconnectCause,
      .literal ",call_action_key=".toList, .int u.callActionKey,
      .literal ",call_action_type=".toList, .int u.callActionType,
      .literal ",event_received=".toList, .int u.eventReceived.toNat,
      .literal "  where id = ".toList, .int (toInt32 u.id)]
  | .forwarding f =>
    [.literal "INSERT INTO call_forwarding set campaigns_id=".toList, .int (toInt32 f.campaignsId),
      .literal ", gateway_id=".toList, .int (toInt32 f.gatewayId),
      .literal ", call_from=".toList, .string (f.callFrom.map String.toList),
      .literal ", call_to=".toList, .string (f.callTo.map String.toList),
      .literal ",call_status=".toList, .int f.callStatus.toNat,
      .literal ",call_duration=".toList, .int f.callDuration,
      .literal ",connect_time=".toList, .long f.connectTime,
      .literal ",establish_time=".toList, .long f.establishTime,
      .literal ",disconnect_time=".toList, .long f.disconnectTime,
      .literal ",disconnect_cause=".toList, .int f.disconnectCause]

theorem pieces_format (sql : Sql) : sql.pieces.flatMap FormatPiece.format = sql.format := by
  unfold Sql.pieces Sql.format
  cases sql <;>
  · simp only [List.flatMap_cons, List.flatMap_nil, FormatPiece.format]
    simp only [String.reduceToList]
    simp only [List.cons_append, List.nil_append]

theorem pieces_args (sql : Sql) : sql.pieces.flatMap FormatPiece.args = sql.args := by
  cases sql <;> rfl

theorem pieces_plain (sql : Sql) : ∀ piece ∈ sql.pieces, piece.Plain := by
  cases sql <;> simp [Sql.pieces, FormatPiece.Plain]

/-- Every statement has a text. -/
theorem text_eq (sql : Sql) : sql.text = some (sql.pieces.flatMap FormatPiece.text) := by
  rw [Sql.text, ← pieces_format, ← pieces_args]
  exact vhprintf_pieces (pieces_plain sql)

end Autodialer
