import Allama.UpdateHistories

/-! The events of a case over every sequence of its updates. -/
namespace Allama
namespace Cases

set_option linter.constructorNameAsVariable false

open Chains
variable {Value Payload : Type} [DecidableEq Value] [DecidableEq Payload]
variable {bind : String → Option Value → Except String (Option Value)}

def Led (bind : String → Option Value → Except String (Option Value)) (created tables : Tables Value Payload) : Prop :=
  (∃ events, Links bind created tables events) ∧ ∀ field, Stable bind field (tables.fieldValue field)

omit [DecidableEq Value] [DecidableEq Payload] in
theorem Led.enums {created tables first : Tables Value Payload} {params : CaseUpdate Value Payload} {env : Environment}
    (h : Led bind created tables)
    (hfirst : ((changeStatus env params.status.join tables).bind (changePriority env params.priority.join)).bind
      (changeSeverity env params.severity.join) = some first) : Led bind created first := by
  obtain ⟨⟨events,hevents⟩,hstable⟩ := h
  obtain ⟨status,priority,severity,rfl⟩ := changeEnums_eq_some hfirst
  exact ⟨⟨_,hevents.trans (links_enums bind env tables status priority severity)⟩,hstable⟩

theorem led_next (hbind : ∀ field supplied stored, bind field supplied = .ok stored → Stable bind field stored)
    {created : Tables Value Payload} {session session' : Session Value Payload} {action : Action Value Payload}
    (h : Led bind created session.committed ∧ Led bind created session.working)
    (hnext : next bind session action = some session') :
    Led bind created session'.committed ∧ Led bind created session'.working := by
  obtain ⟨hcommitted,hworking⟩ := h
  cases action with
  | discard =>
    cases hnext
    exact ⟨hcommitted,hcommitted⟩
  | update params env =>
    cases hnext
    rcases updateCase_cases bind session params env with hcall | ⟨message,tables,hfirst,hcall⟩ |
      ⟨first,second,third,hfirst,hsecond,hthird,hcall⟩
    · rw [hcall]
      exact ⟨hcommitted,hcommitted⟩
    · rw [hcall]
      exact ⟨hcommitted,hworking.enums hfirst⟩
    · rw [hcall]
      obtain ⟨⟨events,hevents⟩,hstable⟩ := hworking
      obtain ⟨events',hlinks,-,hstable'⟩ := links_stages hbind hstable hfirst hsecond hthird
      have hled : Led bind created third := ⟨⟨_,hevents.trans hlinks⟩,hstable'⟩
      exact ⟨hled,hled⟩

section Samples

/-- Bindings of a single integer column. -/
def scoreColumn (field : String) (value : Option Nat) : Except String (Option Nat) :=
  if field = "score" then .ok value else .error "Column does not exist"

def newCase : Tables Nat Nat where
  row := ⟨.new,.low,.low,none,"Phishing","",none⟩
  fields := [("score",none)]
  events := []

def quietDatabase : Environment := ⟨none,fun _ => false⟩

def payloadUpdate (payload : Nat) : Action Nat Nat := .update { payload := some (some payload) } quietDatabase

def scored : CaseUpdate Nat Nat where
  status := some (some .closed)
  fields := some (some ⟨[("score",some 3)],by decide⟩)
  assignee_id := some (some 7)

def scoredCase : Tables Nat Nat where
  row := ⟨.closed,.low,.low,some 7,"Phishing","",none⟩
  fields := [("score",some 3)]
  events := [⟨.closed .new .closed,none⟩,⟨.fieldsChanged [⟨"score",none,some 3⟩],none⟩,⟨.assigneeChanged none (some 7),none⟩]

theorem scoreColumn_stable (field : String) (supplied stored : Option Nat) (h : scoreColumn field supplied = .ok stored) :
    Stable scoreColumn field stored := by
  rw [scoreColumn] at h
  split at h
  · rename_i hfield
    intro stored' hstored
    rw [scoreColumn, if_pos hfield] at hstored
    exact (Except.ok.inj hstored).symm
  · cases h

theorem newCase_stable (field : String) : Stable scoreColumn field (newCase.fieldValue field) := by
  intro stored hstored
  rw [scoreColumn] at hstored
  split at hstored
  · exact (Except.ok.inj hstored).symm
  · cases hstored

end Samples
end Cases
end Allama
