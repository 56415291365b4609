import Courier.Proofs.Wire.Link
import Courier.Proofs.Wire.Message
import Courier.Proofs.Wire.Row

/-!
# Reading back texts

What goes over the wire or comes out of the store is passed on as a text, the compact one of its
JSON form. `Json.reread` writes a JSON form and reads the text again.

* `reread_eq`: of a proper value the text says what the value says.
* `eq_of_render_eq`: values that are read back have texts of their own.
* `texts_reread`: all wire and row types are read back in every field.
-/

namespace Courier

open Json

namespace Json

variable {α : Type} {f : Json → Option α} {j j' : Json} {a a' : α} {o : Option α}

/-- What `f` reads in the text of a value. -/
def reread (f : Json → Option α) (j : Json) : Option α :=
  (read j.render).bind f

theorem reread_eq (h : Proper j) (hread : f j = o) : reread f j = o := by
  unfold reread
  rw [read_render h]
  exact hread

theorem eq_of_render_eq (h : reread f j = some a) (h' : reread f j' = some a')
    (htext : j.render = j'.render) : a = a' := by
  unfold reread at h h'
  rw [htext, h'] at h
  exact (Option.some.inj h).symm

end Json

namespace DeviceLink

theorem reread_toJson (l : DeviceLink) : reread ofJson? l.toJson = some l :=
  reread_eq l.proper_toJson l.ofJson?_toJson

/-- Links have the same text exactly if they are the same with their signatures, which is more than
that they pair the same devices. -/
theorem render_inj {l l' : DeviceLink} : l.toJson.render = l'.toJson.render ↔ l = l' :=
  ⟨eq_of_render_eq l.reread_toJson l'.reread_toJson, fun h => by rw [h]⟩

end DeviceLink

/-- For every value of a wire or row type, whatever its strings, its octets and its numbers:

* the text of the value is read as that value, in every field, so that an optional field that is
  absent and one that is present and empty are kept apart; where the value has an id, this is so for
  every id that a row can have, and no other id is read;
* a conversation reference is read also with its id before its kind;
* two links that differ in a signature only have different texts. -/
theorem texts_reread :
    (∀ n : SwarmNode, reread SwarmNode.ofJson? n.toJson = some n) ∧
    (∀ b : RawBatch, reread RawBatch.ofJson? b.toJson = some b) ∧
    (∀ l : DeviceLink, reread DeviceLink.ofJson? l.toJson = some l) ∧
    (∀ l l' : DeviceLink, l.toJson.render = l'.toJson.render ↔ l = l') ∧
    (∀ d : Destination, reread Destination.ofJson? d.toJson = some d) ∧
    (∀ r : ThreadRef, reread ThreadRef.ofJson? r.toJson = some r ∧
      reread ThreadRef.ofJson? r.idFirst = some r) ∧
    (∀ k : MessageKind, reread MessageKind.ofJson? k.toJson = some k) ∧
    (∀ m : OutgoingMessage, reread OutgoingMessage.ofJson? m.toJson = some m) ∧
    (∀ e : OutgoingEnvelope, reread OutgoingEnvelope.ofJson? e.toJson =
      if IsRowId e.threadId then some e else none) ∧
    (∀ p : ProfileUpdate, reread ProfileUpdate.ofJson? p.toJson = some p) ∧
    (∀ m : LinkControl, reread LinkControl.ofJson? m.toJson = some m) ∧
    (∀ t : ThreadRow, reread ThreadRow.ofJson? t.toJson = if IsRowId t.id then some t else none) ∧
    (∀ job : InboundJob, reread InboundJob.ofJson? job.toJson =
      if IsRowId job.id then some job else none) ∧
    ∀ p : ProfileRow, reread ProfileRow.ofJson? p.toJson = some p := by
  refine ⟨fun n => ?_, fun b => ?_, fun l => l.reread_toJson, fun l l' => DeviceLink.render_inj,
    fun d => ?_, fun r => ⟨?_, ?_⟩, fun k => ?_, fun m => ?_, fun e => ?_, fun p => ?_, fun m => ?_,
    fun t => ?_, fun job => ?_, fun p => ?_⟩
  · exact reread_eq n.proper_toJson n.ofJson?_toJson
  · exact reread_eq b.proper_toJson b.ofJson?_toJson
  · exact reread_eq d.proper_toJson d.ofJson?_toJson
  · exact reread_eq r.proper_toJson r.ofJson?_toJson
  · exact reread_eq r.proper_idFirst r.ofJson?_idFirst
  · exact reread_eq k.proper_toJson k.ofJson?_toJson
  · exact reread_eq m.proper_toJson m.ofJson?_toJson
  · exact reread_eq e.proper_toJson e.ofJson?_toJson
  · exact reread_eq p.proper_toJson p.ofJson?_toJson
  · exact reread_eq m.proper_toJson m.ofJson?_toJson
  · exact reread_eq t.proper_toJson t.ofJson?_toJson
  · exact reread_eq job.proper_toJson job.ofJson?_toJson
  · exact reread_eq p.proper_toJson p.ofJson?_toJson

end Courier
