import InlineCil.Proofs.Inquiry.Readers
import InlineCil.Proofs.Expression.Exactness

/-!
# Rules as inquiries

A pass looks types up only when it reads the arguments of a call. All its other
steps work on the body, the labels and the local variables, and neither look at
the symbols nor change them.

The lemmas follow the text of the rules from the small steps on. A step that
changes a field of the state other than the symbols is blind to them by
computation, which settles most of the rules at once; what is left is how they
are composed.

A reading takes lines out of the body and keeps the symbols of its reader, so it
is told by a change of the reader's result. This is the only place of a pass
where an inquiry with accesses comes in.
-/

namespace InlineCil

namespace Rewrite

variable {base : Symbols} {frame : Frame} {α : Type}

theorem inquires_body : Inquires base body := inquires_of_blind fun _ _ => rfl

theorem inquires_setBody (b : Body) : Inquires base (setBody b) := inquires_of_blind fun _ _ => rfl

theorem inquires_faultless (result : Except Fault α) : Inquires base (faultless result) := by
  cases result with
  | ok value => exact inquires_pure value
  | error fault => exact inquires_throw _

theorem inquires_refusable (result : Except Cause α) : Inquires base (refusable result) := by
  cases result with
  | ok value => exact inquires_pure value
  | error cause => exact inquires_throw _

theorem inquires_located {step : Pass α} (asks : Inquires base step) (place : Place) :
    Inquires base (located place step) := asks.rethrow (Failure.locatedAt place)

theorem inquires_remove (place : Place) : Inquires base (remove place) :=
  inquires_body.bind fun _ => (inquires_faultless _).bind fun _ => inquires_setBody _

theorem inquires_replace (place : Place) (instruction : Instruction) :
    Inquires base (replace place instruction) :=
  inquires_body.bind fun _ => (inquires_faultless _).bind fun _ => inquires_setBody _

theorem inquires_mapPoints (site : List Place) (target : Option Place) :
    Inquires base (mapPoints frame site target) := by
  unfold mapPoints
  split
  · exact inquires_body.bind fun _ => inquires_setBody _
  · exact inquires_pure _

/-- What a reader comes to, as what reading before a call comes to. -/
def readBefore (state : Rewriting) (call : Place) :
    EStateM.Result Failure Reading α → EStateM.Result Failure Rewriting (α × List Place)
  | .ok value rest =>
      .ok (value, rest.taken)
        { state with body := takeOut state.body rest.taken, symbols := rest.symbols }
  | .error failure rest =>
      .error (failure.locatedAt call)
        { state with body := takeOut state.body rest.taken, symbols := rest.symbols }

/-- Reading is the inquiry that the reader is. Taking lines out afterwards needs
no symbols. The call is looked up in the body before, and if it is not there
nothing is asked. -/
theorem inquires_reading {reader : Site → Nat → Reader α}
    (asks : ∀ site bound, Inquires base (reader site bound)) (call : Place) :
    Inquires base (reading frame call reader) := by
  intro state
  cases found : state.body.instruction call with
  | error fault =>
    refine exists_asks_of_fails (.ofFault fault) fun symbols => ?_
    have found : (HasSymbols.exchange state symbols).body.instruction call = .error fault := found
    unfold reading
    simp only [Steps.run_bind, Steps.run_get, found, faultless, Steps.run_throw]
  | ok instruction =>
    obtain ⟨told, asks⟩ := asks (siteOf frame ⟨call, instruction⟩)
      (state.body.code.linesBefore call).reverse.length
      ⟨(state.body.code.linesBefore call).reverse, [], base⟩
    refine ⟨_, asks.change (readBefore state call) (fun symbols => ?_) fun symbols result => ?_⟩
    · have found : (HasSymbols.exchange state symbols).body.instruction call = .ok instruction :=
        found
      exact run_reading_of_instruction found reader
    · cases result <;> rfl

/-- The place of a label is found in the table of labels or is handed out. Both
the table and the body are beside the symbols. -/
theorem inquires_labelPlace (name : String) : Inquires base (labelPlace name) := by
  unfold labelPlace
  refine .orGiveUp (inquires_throw _) fun _ => inquires_of_blind fun state symbols => ?_
  rw [Steps.run_bind, Steps.run_get, Steps.run_bind, Steps.run_get]
  dsimp only [HasSymbols.exchange]
  cases state.labels.find? name <;> rfl

theorem inquires_useLabel (name : String) (branch : Place) :
    Inquires base (useLabel name branch) :=
  (inquires_labelPlace name).bind fun place =>
    .bind (inquires_of_blind fun _ _ => rfl) fun _ => inquires_pure place

/-- Marking a label looks at the table of labels and at the body. -/
theorem inquires_defineLabel (name : String) (call : Place) :
    Inquires base (defineLabel name call) :=
  (inquires_labelPlace name).bind fun place => .get (fun _ _ => rfl) fun _ =>
    .orGiveUp (inquires_throw _) fun _ => .bind (inquires_of_blind fun _ _ => rfl) fun _ =>
      inquires_body.bind fun _ => (inquires_faultless _).bind fun _ =>
        (inquires_setBody _).bind fun _ => inquires_pure place

/-- Looking a local variable up looks at the declared ones only. -/
theorem inquires_localSlot
    (find : Option LocalTable → Except Cause (UInt16 × Option LocalTable)) :
    Inquires base (localSlot find) :=
  .get (fun _ _ => rfl) fun _ => (inquires_refusable _).bind fun found =>
    .bind (inquires_of_blind fun _ _ => rfl) fun _ => inquires_pure found.1

theorem inquires_ranged (opcode : Opcode) (least bound value : Int) (make : Int → Operand) :
    Inquires base (ranged opcode least bound value make) := by
  unfold ranged
  split
  · exact inquires_pure _
  · exact inquires_throw _

/-- An operand is composed from labels, parameters and numbers; its members and
types have been found by the reader. -/
theorem inquires_operand (call : Place) (opcode : Opcode) (value : Argument) :
    Inquires base (operand frame call opcode value) := by
  unfold operand
  split
  all_goals first
    | exact inquires_pure _
    | exact inquires_ranged _ _ _ _ _
    | exact (inquires_useLabel _ _).bind fun place => inquires_pure _
    | exact (Inquires.mapM (fun name => inquires_useLabel name call) _).bind fun places =>
        inquires_pure _
    | exact (inquires_liftExcept _).bind fun index => inquires_pure _
    | exact inquires_throw _

/-- An emitted instruction is composed without looking at the symbols. Labels and
local variables are all that composing looks up, and both are kept beside them. -/
theorem inquires_instruction (call : Place) (opcode : Opcode) (value : Argument) :
    Inquires base (instruction frame call opcode value) := by
  unfold instruction
  split
  · refine .get (fun _ _ => rfl) fun state => ?_
    split
    · exact inquires_pure _
    · exact (inquires_localSlot _).bind fun slot => inquires_liftExcept _
  · split
    · exact (inquires_localSlot _).bind fun slot => inquires_liftExcept _
    · exact (inquires_localSlot _).bind fun slot => inquires_liftExcept _
    · exact (inquires_operand call opcode _).bind fun made => inquires_liftExcept _

theorem inquires_removeCall (call : Place) (taken : List Place) :
    Inquires base (removeCall frame call taken) :=
  inquires_body.bind fun _ => (inquires_remove call).bind fun _ =>
    (inquires_mapPoints _ _).bind fun _ => inquires_pure _

/-- Pushing looks at the stack if it is told to, for which the body is enough. -/
theorem inquires_push (call : Place) : Inquires base (push frame call) := by
  unfold push
  split
  · exact inquires_body.bind fun b => .orGiveUp (inquires_throw _) fun _ =>
      inquires_removeCall call []
  · exact inquires_removeCall call []

/-- Pop looks at the body only. Its argument is the address that is loaded right
before the call, so it has no arguments to read. -/
theorem inquires_pop (call : Place) : Inquires base (pop frame call) := by
  refine inquires_body.bind fun b => ?_
  split
  · exact inquires_throw _
  · refine .orGiveUp (inquires_throw _) fun _ => inquires_body.bind fun _ =>
      (inquires_faultless _).bind fun loading => ?_
    split
    · exact inquires_throw _
    · exact (inquires_liftExcept _).bind fun _ => (inquires_replace _ _).bind fun _ =>
        inquires_body.bind fun _ => (inquires_remove call).bind fun _ =>
          (inquires_mapPoints _ _).bind fun _ => inquires_pure _

/-- Code that is never reached is removed by looking at the opcode of the next
line, with no question asked. -/
theorem inquires_unreachable (call : Place) : Inquires base (unreachable frame call) := by
  refine inquires_body.bind fun b => ?_
  split
  · exact inquires_throw _
  · exact .orGiveUp (inquires_throw _) fun _ => inquires_body.bind fun _ =>
      (inquires_remove call).bind fun _ => (inquires_remove _).bind fun _ =>
        (inquires_mapPoints _ _).bind fun _ => inquires_pure _

theorem inquires_returnValue (call : Place) : Inquires base (returnValue frame call) :=
  inquires_body.bind fun _ => .orGiveUp (inquires_throw _) fun _ => inquires_removeCall call []

/-- Declaring looks at the local variables only, so it does the same whatever
symbols there are. -/
theorem inquires_declare (declared : List LocalDeclaration) (init : Bool) (call : Place) :
    Inquires base (declare declared init call) := by
  refine inquires_of_blind fun state symbols => ?_
  unfold declare
  rw [Steps.run_bind, Steps.run_get, Steps.run_bind, Steps.run_get]
  dsimp only [HasSymbols.exchange]
  split
  · rfl
  split
  · rfl
  cases LocalTable.declare state.body.locals.length declared call <;> rfl

variable (unloaded : base.loader = none)

include unloaded

theorem inquires_markLabel (call : Place) : Inquires base (markLabel frame call) :=
  (inquires_reading (fun _ _ => (Reader.inherited_inquires unloaded).string) call).bind fun read =>
    (inquires_located (inquires_defineLabel read.1 call) call).bind fun _ =>
      (inquires_mapPoints _ _).bind fun _ => inquires_body.bind fun _ => inquires_pure _

/-- Declaring local variables reads their types, and goes on without symbols. -/
theorem inquires_declareLocals (call : Place) (hasInitFlag : Bool) :
    Inquires base (declareLocals frame call hasInitFlag) :=
  (inquires_reading (fun _ _ => (Reader.inherited_inquires unloaded).declarations) call).bind
    fun read => (inquires_declare read.1.1 read.1.2 call).bind fun _ =>
      inquires_removeCall call read.2

/-- Emitting reads its argument, and goes on without symbols. What is asked
depends on the parameter of the marker and on the lines before the call. -/
theorem inquires_emit (call : Place) (opcode : Opcode) (parameter : EmitParameter) :
    Inquires base (emit frame call opcode parameter) :=
  (inquires_reading (fun _ _ => (Reader.inherited_inquires unloaded).argument parameter)
    call).bind fun read =>
      (inquires_located (inquires_instruction call opcode read.1) call).bind fun emitted =>
        (inquires_replace call emitted).bind fun _ => (inquires_mapPoints _ _).bind fun _ =>
          inquires_body.bind fun _ => inquires_pure _

/-- Every rule is an inquiry. Those that read arguments ask what their reader
asks, and the others ask nothing. -/
theorem inquires_rewriteCall (call : Place) (marker : Marker) :
    Inquires base (rewriteCall frame call marker) := by
  unfold rewriteCall
  split
  · exact inquires_push call
  · exact inquires_push call
  · exact inquires_push call
  · exact inquires_pop call
  · exact inquires_unreachable call
  · exact inquires_returnValue call
  · exact inquires_returnValue call
  · exact inquires_returnValue call
  · exact inquires_markLabel unloaded call
  · exact inquires_declareLocals unloaded call _
  · exact inquires_emit unloaded call _ _
  · exact inquires_body.bind fun _ => inquires_pure _

/-- A visit is the inquiry that the rule for its call is, if there is a rule.
Classifying a call goes by names only and asks nothing. -/
theorem inquires_visit (place : Place) : Inquires base (visit frame place) := by
  refine inquires_body.bind fun _ => (inquires_faultless _).bind fun found => ?_
  split
  · exact inquires_throw _
  · exact inquires_body.bind fun _ => inquires_pure _
  · exact inquires_rewriteCall unloaded place _

/-- A scan is an inquiry, by induction on the number of visits. Where it goes on
after a visit may depend on the answers, as the next question may. -/
theorem inquires_scan (visits : Nat) (place : Option Place) :
    Inquires base (scan frame visits place) := by
  induction visits generalizing place with
  | zero => cases place <;> exact inquires_pure _
  | succ visits ih =>
    cases place with
    | none => exact inquires_pure _
    | some place => exact (inquires_visit unloaded place).bind fun next => ih next

omit unloaded in
theorem inquires_finish : Inquires base (finish frame) :=
  .get (fun _ _ => rfl) fun _ => (inquires_liftExcept _).bind fun _ =>
    (inquires_liftExcept _).bind fun _ => (inquires_setBody _).bind fun _ =>
      inquires_body.bind fun _ => (inquires_faultless _).bind fun _ => inquires_pure _

/-- A whole pass is an inquiry: its scan, and then its closing. -/
theorem inquires_run : Inquires base (run frame) :=
  inquires_body.bind fun _ => (inquires_scan unloaded _ _).bind fun _ => inquires_finish

end Rewrite

end InlineCil
