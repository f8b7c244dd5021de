import Autodialer.StatementText
import Autodialer.GatewayUri
import Autodialer.Sessions
import Autodialer.Lib.Separator

/-!
# The forwarding record as a text

The record of a forwarded call has two strings in it, the contact and the number it was forwarded
to. `db_exec` prints both without quotes, so what stands between them is all that tells them apart.

* `forwarding_text_eq_iff`: two records have one text exactly if a piece of one string can be
  moved past `, call_to=` into the other.
* `forwarding_readings_iff`: the text is that of these two strings only, exactly if neither of
  them contains `, call_to=`.
* `forwarding_commas`: every comma of the strings is one more comma between assignments.
-/

namespace Autodialer

open Separator

/-- The record with the two strings in it. -/
def Forwarding.between (f : Forwarding) (callFrom callTo : String) : Forwarding :=
  { f with callFrom := some callFrom, callTo := some callTo }

/-! ## What `on_call_end` records -/

/-- The strings of the record are the contact of the destination and the number of its target, as
they stand in memory. -/
theorem recordForwarding_strings {s s' : Sys} {now : Time} {dest : Destination} {call : Call}
    {leg : CallId} {duration : Int}
    (run : recordForwarding s now dest call leg = .ok (s', duration)) :
    ∃ camp gateway callTo f, s.loadCamp dest.cp = .ok camp ∧
      recordTarget s camp call = .ok (gateway, callTo) ∧ s' = s.exec (.forwarding f) ∧
      f.callFrom = dest.dest ∧ f.callTo = callTo := by
  obtain ⟨legCall, -, run⟩ := Fallible.bind_eq_ok.mp run
  obtain ⟨camp, liveCamp, run⟩ := Fallible.bind_eq_ok.mp run
  obtain ⟨⟨gateway, callTo⟩, target, run⟩ := Fallible.bind_eq_ok.mp run
  cases run
  exact ⟨camp, gateway, callTo, _, liveCamp, target, rfl, rfl, rfl⟩

/-! ## The text around the two strings -/

/-- What stands between the two strings. -/
def callToField : List Char := ", call_to=".toList

/-- The text before the two strings. -/
def Forwarding.head (f : Forwarding) : List Char :=
  ((Sql.forwarding f).pieces.take 5).flatMap FormatPiece.text

/-- The text after them. -/
def Forwarding.tail (f : Forwarding) : List Char :=
  ((Sql.forwarding f).pieces.drop 8).flatMap FormatPiece.text

theorem callToField_ne_nil : callToField ≠ [] := by decide

theorem callToField_unbordered : Unbordered callToField := by
  have once : ',' ∉ " call_to=".toList := by decide
  exact unbordered_cons once

theorem forwarding_text (f : Forwarding) (callFrom callTo : String) :
    (Sql.forwarding (f.between callFrom callTo)).text =
      some (f.head ++ (join callToField callFrom.toList callTo.toList ++ f.tail)) := by
  have pieces : (Sql.forwarding (f.between callFrom callTo)).pieces =
      (Sql.forwarding f).pieces.take 5 ++ ([.string (some callFrom.toList), .literal callToField,
        .string (some callTo.toList)] ++ (Sql.forwarding f).pieces.drop 8) := rfl
  have strings : [FormatPiece.string (some callFrom.toList), .literal callToField,
      .string (some callTo.toList)].flatMap FormatPiece.text =
        join callToField callFrom.toList callTo.toList := by
    rw [List.flatMap_cons, List.flatMap_cons, List.flatMap_singleton]
    rfl
  rw [text_eq, pieces, List.flatMap_append, List.flatMap_append, strings]
  rfl

theorem forwarding_text_join {f : Forwarding} {callFrom callTo callFrom' callTo' : String} :
    (Sql.forwarding (f.between callFrom callTo)).text =
        (Sql.forwarding (f.between callFrom' callTo')).text ↔
      join callToField callFrom.toList callTo.toList =
        join callToField callFrom'.toList callTo'.toList := by
  rw [forwarding_text, forwarding_text, Option.some_inj, List.append_right_inj,
    List.append_left_inj]

/-! ## Who else has the text -/

/-- Two records have one text only if they have the same strings, or a piece of one string moves
past the separator into the other. -/
theorem forwarding_text_eq_iff {f : Forwarding} {callFrom callTo callFrom' callTo' : String} :
    (Sql.forwarding (f.between callFrom callTo)).text =
        (Sql.forwarding (f.between callFrom' callTo')).text ↔
      (callFrom = callFrom' ∧ callTo = callTo') ∨
        Moved callToField callFrom.toList callTo.toList callFrom'.toList callTo'.toList ∨
        Moved callToField callFrom'.toList callTo'.toList callFrom.toList callTo.toList := by
  rw [forwarding_text_join, join_eq_iff callToField_unbordered, String.toList_inj,
    String.toList_inj]

/-- The text of a record tells its two strings exactly if neither of them contains the text that
stands between them. Any other comma of a string leaves the text as telling, but is one more comma
among those that separate the assignments (`forwarding_commas`): to a reader that does not know the
strings the record may have more than ten of them. -/
theorem forwarding_readings_iff (f : Forwarding) (callFrom callTo : String) :
    (∀ callFrom' callTo' : String,
      (Sql.forwarding (f.between callFrom' callTo')).text =
        (Sql.forwarding (f.between callFrom callTo)).text →
      callFrom' = callFrom ∧ callTo' = callTo) ↔
      ¬ callToField <:+: callFrom.toList ∧ ¬ callToField <:+: callTo.toList := by
  rw [← onlyReading_iff callToField_ne_nil callToField_unbordered]
  constructor
  · intro only x y same
    have strings := only (String.ofList x) (String.ofList y)
    rw [forwarding_text_join, ← String.toList_inj, ← String.toList_inj, String.toList_ofList,
      String.toList_ofList] at strings
    exact strings same
  · intro only callFrom' callTo' same
    obtain ⟨sameFrom, sameTo⟩ := only _ _ (forwarding_text_join.mp same)
    exact ⟨String.toList_inj.mp sameFrom, String.toList_inj.mp sameTo⟩

/-! ## Both readings are written -/

/-- A campaign whose contacts are joined to the number `pbxNumber`, with one contact. -/
def onePbx (contact pbxNumber : String) : Snapshot :=
  { joinCampaign with
    campaigns := some [{
      id := 1, frequency := 2, gatewayId := 1, pbxGatewayId := 1, pbxNumber := some pbxNumber }]
    calls _ := some [{ id := 7, contactNumber := some contact }] }

/-- The contact answers, is forwarded and hangs up before the PBX has answered. -/
def forwardedCall (contact pbxNumber : String) : List Event :=
  [.pull (onePbx contact pbxNumber), .message 100 fun _ => {},
    .establish 0 { answer := { raddr := 55 }, now := 105 }, .destTimer 0 106 {},
    .close 0 false 200, .destTimer 0 170 {}]

/-- The numbers in the record of that call. -/
def forwardedRecord : Forwarding where
  campaignsId := 1
  gatewayId := 1
  callFrom := none
  callTo := none
  callStatus := .connecting
  callDuration := 0
  connectTime := 106
  establishTime := 0
  disconnectTime := 170
  disconnectCause := 0

/-- Any contact and any PBX number get into such a record: no step looks into the strings. -/
theorem forwarding_written (contact pbxNumber : String) : ∃ h s, dialer.Execution h s ∧
    .forwarding (forwardedRecord.between contact pbxNumber) ∈ s.db.enqueued := by
  have last : (Lts.replay Sys.next (Sys.boot 4 "/audio") (forwardedCall contact pbxNumber)).map
      (fun r => r.2.db.enqueued.getLast?) =
        some (some (.forwarding (forwardedRecord.between contact pbxNumber))) := rfl
  obtain ⟨⟨h, s⟩, done, isLast⟩ := Option.map_eq_some_iff.mp last
  exact ⟨h, s, ⟨_, ⟨4, "/audio", by decide, rfl⟩, Lts.replay_run done⟩,
    List.mem_of_getLast? isLast⟩

/-- Two records that the dialer writes, with the same numbers and different strings, have one
text. -/
theorem forwarding_ambiguous : ¬ ∀ f h h' s s' callFrom callTo callFrom' callTo',
    dialer.Execution h s → dialer.Execution h' s' →
    .forwarding (Forwarding.between f callFrom callTo) ∈ s.db.enqueued →
    .forwarding (Forwarding.between f callFrom' callTo') ∈ s'.db.enqueued →
    (Sql.forwarding (f.between callFrom callTo)).text =
      (Sql.forwarding (f.between callFrom' callTo')).text →
    callFrom = callFrom' ∧ callTo = callTo' := by
  intro injective
  obtain ⟨h, s, run, wrote⟩ := forwarding_written "100, call_to=200" "300"
  obtain ⟨h', s', run', wrote'⟩ := forwarding_written "100" "200, call_to=300"
  have moved : Moved callToField "100".toList "200, call_to=300".toList "100, call_to=200".toList
      "300".toList := ⟨"200".toList, by decide, by decide⟩
  have same := forwarding_text_join (f := forwardedRecord).mpr moved.join_eq.symm
  exact absurd (injective _ _ _ _ _ _ _ _ _ run run' wrote wrote' same).2 (by decide)

/-! ## Commas -/

theorem count_comma_int (n : Int) : (printInt n).flatten.count ',' = 0 := by
  rw [List.count_eq_zero, printInt]
  have noComma := not_mem_digits (toDigits_digits n.natAbs) (x := ',') rfl
  split
  · simpa using noComma
  · simpa using noComma

/-- Nine commas stand between the ten assignments of the record; a comma of a string is one
more. -/
theorem forwarding_commas (f : Forwarding) (callFrom callTo : String) :
    ∃ text, (Sql.forwarding (f.between callFrom callTo)).text = some text ∧
      text.count ',' = 9 + callFrom.toList.count ',' + callTo.toList.count ',' := by
  refine ⟨_, text_eq _, ?_⟩
  rw [List.count_flatMap]
  unfold Sql.pieces Forwarding.between
  -- with implicit proofs the kernel would add up the counts of the literals to compare the sums
  simp -implicitDefEqProofs only [List.map_cons, List.map_nil, List.sum_cons, List.sum_nil,
    Function.comp_apply, FormatPiece.text, count_comma_int, Option.map_some, Option.getD_some,
    String.reduceToList]
  simp only [List.count_cons, List.count_nil, beq_iff_eq, Char.reduceEq, if_false, if_true]
  omega

end Autodialer
