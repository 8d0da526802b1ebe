import Placement.CommandLine.Program
import Placement.Proofs.Bounds
import Placement.Proofs.External.Selection
import Placement.Proofs.Json.Line
import Placement.Proofs.Relay
import Placement.Proofs.Text.Octets
/-
  What the program leaves behind. `IsLine output fields`: the output is one line that spells one
  JSON object with these members.

  `answers_one_object`, for every file, input and bidder: each order that answers a request writes
  one such line, the error alone if the tuning does not load (`Invocation.Fails`) or the request is
  rejected (`Order.Rejects`), and otherwise the answer without an error (`Order.IsAnswer`). The exit
  code is not 0 exactly if the tuning does not load. GIVEN arguments that are a command line of the
  program, and an order other than `config`, which writes a document.

  `HoldsNoTuning file path`: the file is not read, is no text, or is refused as a tuning.
  `exists_loadTuning_error`: it is for these that loading fails.
-/
namespace Placement

open Json (AreReadAs IsReadAs Members)

/-! ## Answers -/

namespace Command

variable {s : Surroundings} {t : Tuning} {input : String}

/-- A bid request is rejected: it does not read, or a job or a system in it breaks a rule. -/
def RejectsBid (input : String) : Prop :=
  ∃ e, (BidRequest.ofText input >>= BidRequest.context) = .error e

/-- A selection request is rejected: it does not read. -/
def RejectsSelection (input : String) : Prop := ∃ e, SelectionRequest.ofText input = .error e

/-- What is not rejected reads and has a valid context. -/
theorem reads_of_not_rejects (h : ¬ RejectsBid input) :
    ∃ q c, BidRequest.ofText input = .ok q ∧ q.context = .ok c := by
  cases hread : BidRequest.ofText input >>= BidRequest.context with
  | error e => exact absurd ⟨e, hread⟩ h
  | ok c =>
    obtain ⟨q, hq, hc⟩ := bind_eq_ok.mp hread
    exact ⟨q, c, hq, hc⟩

/-- The bid command reads, checks and scores. -/
theorem bidOn_eq (s : Surroundings) (t : Tuning) (input : String) :
    bidOn s t input = (BidRequest.ofText input >>= BidRequest.context).map
      fun c => (t.chosenScorer s.curves).bid c s.own := by
  unfold bidOn Scorer.bidOn
  cases BidRequest.ofText input with
  | error e => rfl
  | ok q =>
    rw [ok_bind, ok_bind]
    cases q.context <;> rfl

theorem bidOn_of_rejects (h : RejectsBid input) : ∃ e, bidOn s t input = .error e := by
  obtain ⟨e, he⟩ := h
  refine ⟨e, ?_⟩
  rw [bidOn_eq, he]
  rfl

theorem bid_of_rejects (h : RejectsBid input) (explain : Bool) :
    ∃ message, bid s t explain input = .error ⟨message⟩ := by
  obtain ⟨e, he⟩ := bidOn_of_rejects (s := s) (t := t) h
  unfold bid
  rw [he]
  exact ⟨_, rfl⟩

theorem relay_of_rejects (h : RejectsBid input) (bidder : List String) (timeout : Duration) :
    ∃ message, relay s t bidder timeout input = .error ⟨message⟩ := by
  obtain ⟨e, he⟩ := bidOn_of_rejects (s := s) (t := t) h
  rw [relay_of_rejected he]
  exact bid_of_rejects h true

theorem bid_of_not_rejects (h : ¬ RejectsBid input) (explain : Bool) :
    ∃ b : Bid, Double.IsLevel b.value ∧ bid s t explain input
      = .ok { b.response with reasoning := if explain then b.reasoning else none } := by
  obtain ⟨q, c, hread, hc⟩ := reads_of_not_rejects h
  have hbid : bidOn s t input = .ok ((t.chosenScorer s.curves).bid c s.own) := by
    rw [bidOn_eq, hread, ok_bind, hc]
    rfl
  refine ⟨_, ((t.chosenScorer s.curves).bounded_bid c s.own).isLevel, ?_⟩
  unfold bid
  rw [hbid]

theorem relay_of_not_rejects (h : ¬ RejectsBid input) {bidder : List String} (hne : bidder ≠ [])
    (timeout : Duration) :
    ∃ b : Bid, Double.IsLevel b.value ∧ relay s t bidder timeout input = .ok b.response := by
  obtain ⟨q, c, hread, hc⟩ := reads_of_not_rejects h
  obtain ⟨program, more, rfl⟩ := List.exists_cons_of_ne_nil hne
  unfold relay
  rw [relayed_of_reads s t _ timeout hread hc]
  cases hgate : (t.fallback s.curves).gate? c s.own with
  | some b => exact ⟨b, ((t.fallback s.curves).bounded_gate? c s.own hgate).isLevel, rfl⟩
  | none => exact ⟨_, ((t.fallback s.curves).bounded_resolveResponse c _ s.own _).isLevel, rfl⟩

theorem select_of_rejects (h : RejectsSelection input) (bidder : List String)
    (timeout : Duration) : ∃ message, select s t bidder timeout input = .error (.of message) := by
  obtain ⟨e, he⟩ := h
  unfold select selectThrough
  rw [he]
  exact ⟨_, rfl⟩

/-- External bids never fail to be recorded. -/
theorem selectExternally_eq_ok (t : Tuning) (fanOut : List BidRequest → FanOut.Course)
    (r : SelectionRequest) :
    ∃ selected, selectExternally s.curves s.own t fanOut r = .ok selected := by
  obtain ⟨bids, hbids, -⟩ := recordAll_getElem? (t.fallback s.curves)
    (fanOut (offered (bidRequests r)
      (pending (t.fallback s.curves) s.own (bidRequests r)))).elapsed s.own (bidRequests r)
    ((fanOut (offered (bidRequests r)
      (pending (t.fallback s.curves) s.own (bidRequests r)))).outcomes
        (pending (t.fallback s.curves) s.own (bidRequests r)).length)
  have hexternal : externalBids (t.fallback s.curves) s.own fanOut (bidRequests r) = .ok bids :=
    hbids
  unfold selectExternally
  rw [hexternal]
  exact ⟨_, rfl⟩

theorem select_of_not_rejects (h : ¬ RejectsSelection input) (bidder : List String)
    (timeout : Duration) :
    ∃ selected, select s t bidder timeout input = .ok ⟨selected, roundSeconds s.own⟩ := by
  cases hread : SelectionRequest.ofText input with
  | error e => exact absurd ⟨e, hread⟩ h
  | ok r =>
    unfold select selectThrough
    rw [hread]
    dsimp only
    cases Bidder.ofCommandLine? bidder with
    | none => exact ⟨_, rfl⟩
    | some b =>
      obtain ⟨selected, hselected⟩ := selectExternally_eq_ok (s := s) t
        (FanOut.course s.launch { b with timeout }) r
      dsimp only
      rw [hselected]
      exact ⟨selected, rfl⟩

end Command

/-! ## Lines -/

namespace CommandLine

/-- A line of output: the compact text of an object, without a line break in it, and one behind it,
which is read as an object with these members. -/
structure IsLine (output : String) (fields : Members) : Prop where
  compact : ∃ members, output = (Json.object members).render ++ "\n" ∧
    '\n' ∉ (Json.object members).render.toList
  reads : Json.parse? output = some (.object fields)

/-- An object of scalars is written as a line. -/
theorem isLine_line {members entries : List (String × Json)} (h : AreReadAs members entries)
    (hne : members ≠ []) : IsLine (line (.object members)) (Members.gather entries) where
  compact := ⟨members, rfl, Json.lineBreak_not_mem_render _⟩
  reads := Json.parse?_object h hne (by decide)

theorem two_mul_le_ceiling {q : ℚ} (h : q ≤ 2 ^ (1005 : ℤ)) : 2 * q ≤ Decimal.ceiling := by
  calc 2 * q ≤ 2 * 2 ^ (1005 : ℤ) := mul_le_mul_of_nonneg_left h zero_le_two
    _ = 2 ^ (1006 : ℤ) := (zpow_one_add₀ two_ne_zero 1005).symm
    _ ≤ Decimal.ceiling := by
      unfold Decimal.ceiling
      rw [← zpow_natCast]
      exact zpow_le_zpow_right₀ one_le_two (by norm_num)

/-- A level is printed as a number. -/
theorem isReadAs_level {x : Float} (h : Double.IsLevel x) :
    ∃ y, IsReadAs (.number (.double x)) (.number (.double y)) := by
  refine Json.isReadAs_double h.isFinite (two_mul_le_ceiling ?_)
  rw [abs_of_nonneg h.value_nonneg]
  exact h.value_le_one.trans (one_le_zpow₀ (by norm_num) (by norm_num))

/-- A number of seconds is printed as a number, or as null. -/
theorem isReadAs_seconds (x : Float) : ∃ w, IsReadAs (.number (.double (roundSeconds x))) w := by
  cases hx : (roundSeconds x).isFinite with
  | false => exact ⟨_, Json.isReadAs_double_of_not_isFinite hx⟩
  | true =>
    obtain ⟨y, hy⟩ := Json.isReadAs_double hx (two_mul_le_ceiling (Double.abs_roundSeconds_le hx))
    exact ⟨_, hy⟩

theorem isReadAs_textOrNull (text : Option String) :
    IsReadAs (textOrNull text) (textOrNull text) := by
  cases text with
  | none => exact Json.isReadAs_null
  | some s => exact Json.isReadAs_text s

theorem areReadAs_textMember (key : String) (text : Option String) :
    AreReadAs (textMember key text) (textMember key text) := by
  cases text with
  | none => exact .nil
  | some s => exact .cons ⟨rfl, Json.isReadAs_text s⟩ .nil

/-- The answer to a bid request is a line with its bid, its time and its reasoning, if any. -/
theorem isLine_bidResponse {b : Bid} (h : Double.IsLevel b.value) (reasoning : Option String) :
    ∃ bid seconds, IsLine (line (BidResponse.toJson { b.response with reasoning }))
      (Members.gather ([("bid", bid), ("bid_generation_time_seconds", seconds)]
        ++ textMember "reasoning" reasoning)) := by
  obtain ⟨y, hbid⟩ := isReadAs_level h
  obtain ⟨w, hseconds⟩ := isReadAs_seconds b.seconds
  refine ⟨.number (.double y), w, isLine_line ?_ (List.cons_ne_nil _ _)⟩
  exact .cons ⟨rfl, hbid⟩ (.cons ⟨rfl, hseconds⟩ (areReadAs_textMember "reasoning" reasoning))

theorem isLine_selectionResponse (selected : Option String) (x : Float) :
    ∃ seconds, IsLine (line (SelectionResponse.toJson ⟨selected, roundSeconds x⟩))
      (Members.gather
        [("selected_system", textOrNull selected), ("decision_time_seconds", seconds)]) := by
  obtain ⟨w, hseconds⟩ := isReadAs_seconds x
  refine ⟨w, isLine_line ?_ (List.cons_ne_nil _ _)⟩
  exact .cons ⟨rfl, isReadAs_textOrNull selected⟩ (.cons ⟨rfl, hseconds⟩ .nil)

theorem isLine_error (message : String) :
    IsLine (line (ErrorResponse.mk message).toJson) [("error", .text message)] := by
  have h : AreReadAs [("error", .text message)] [("error", .text message)] :=
    .cons ⟨rfl, Json.isReadAs_text message⟩ .nil
  have hline := isLine_line h (List.cons_ne_nil _ _)
  exact hline

theorem isLine_selectionError (message : String) :
    IsLine (line (SelectionErrorResponse.of message).toJson)
      [("error", .text message), ("selected_system", .null)] := by
  have h : AreReadAs [("error", .text message), ("selected_system", .null)]
      [("error", .text message), ("selected_system", .null)] :=
    .cons ⟨rfl, Json.isReadAs_text message⟩ (.cons ⟨rfl, Json.isReadAs_null⟩ .nil)
  have hgather : Members.gather [("error", .text message), ("selected_system", .null)]
      = [("error", .text message), ("selected_system", .null)] := by
    have hkeys : ¬ "selected_system" < "error" ∧ "selected_system" ≠ "error" := by decide
    simp only [Members.gather, List.foldl_cons, List.foldl_nil, Members.set]
    rw [if_neg hkeys.1, if_neg hkeys.2]
  have hline := isLine_line h (List.cons_ne_nil _ _)
  rw [hgather] at hline
  exact hline

/-! ## Commands -/

/-- The order that is read stands under the name of a command. -/
theorem exists_orderOf {environment : Option String} {arguments : List String} {i : Invocation}
    (h : read environment arguments = .ok i) : ∃ name g, orderOf name g = .ok i.order := by
  unfold read at h
  obtain ⟨outer, -, h⟩ := bind_eq_ok.mp h
  cases hcommand : outer.command with
  | none =>
    rw [hcommand] at h
    exact nomatch h
  | some command =>
    obtain ⟨name, behind⟩ := command
    rw [hcommand] at h
    obtain ⟨-, h⟩ := guard_seq_eq_ok.mp h
    cases hlevel : List.lookup name commands with
    | none =>
      rw [hlevel] at h
      exact nomatch h
    | some level =>
      rw [hlevel] at h
      obtain ⟨inner, -, h⟩ := bind_eq_ok.mp h
      obtain ⟨order, horder, h⟩ := bind_eq_ok.mp h
      obtain ⟨_, -, h⟩ := bind_eq_ok.mp h
      obtain ⟨-, h⟩ := guard_seq_eq_ok.mp h
      cases h
      exact ⟨name, inner, horder⟩

/-- A relay that is read has a bidder. -/
theorem bidder_ne_nil {environment : Option String} {arguments : List String} {i : Invocation}
    (h : read environment arguments = .ok i) {seconds : Option UInt64} {bidder : List String}
    (hrelay : i.order = .relay seconds bidder) : bidder ≠ [] := by
  obtain ⟨name, g, horder⟩ := exists_orderOf h
  rw [hrelay] at horder
  unfold orderOf at horder
  split_ifs at horder with hbid hselect hname hempty
  all_goals cases horder
  exact fun hnil => hempty (List.isEmpty_iff.mpr hnil)

namespace Order

/-- A command rejects the request in a text. -/
def Rejects (input : String) : Order → Prop
  | .bid _ | .relay _ _ => Command.RejectsBid input
  | .select _ => Command.RejectsSelection input
  | .config => False

/-- What the error of a command has for members. -/
def errorMembers (message : String) : Order → Members
  | .select _ => [("error", .text message), ("selected_system", .null)]
  | _ => [("error", .text message)]

/-- The keys that the answer of a command always has. -/
def answerKeys : Order → List String
  | .bid _ | .relay _ _ => ["bid", "bid_generation_time_seconds"]
  | .select _ => ["selected_system", "decision_time_seconds"]
  | .config => []

/-- The members of an answer without an error. -/
structure IsAnswer (order : Order) (fields : Members) : Prop where
  error : Members.find? fields "error" = none
  keys : ∀ key ∈ order.answerKeys, ∃ v, Members.find? fields key = some v
  reasoning : order = .bid false → Members.find? fields "reasoning" = none

variable {order : Order}

/-- A command that answers requests writes its error as a line. -/
theorem isLine_failure (h : order ≠ .config) (message : String) :
    IsLine (order.failure message) (order.errorMembers message) := by
  cases order with
  | bid explain => exact isLine_error message
  | relay seconds bidder => exact isLine_error message
  | select bidder => exact isLine_selectionError message
  | config => exact absurd rfl h

/-- A rejected request is answered with an error. -/
theorem isLine_of_rejects (s : Surroundings) (t : Tuning) {input : String}
    (h : order.Rejects input) :
    ∃ message, IsLine (order.answer s t input) (order.errorMembers message) := by
  cases order with
  | bid explain =>
    obtain ⟨message, hm⟩ := Command.bid_of_rejects (s := s) (t := t) h explain
    refine ⟨message, ?_⟩
    dsimp only [answer]
    rw [hm]
    exact isLine_error message
  | relay seconds bidder =>
    obtain ⟨message, hm⟩ := Command.relay_of_rejects (s := s) (t := t) h bidder
      (timeoutOf (seconds.getD t.external.timeoutSeconds))
    refine ⟨message, ?_⟩
    dsimp only [answer]
    rw [hm]
    exact isLine_error message
  | select bidder =>
    obtain ⟨message, hm⟩ := Command.select_of_rejects (s := s) (t := t) h bidder
      (timeoutOf t.external.timeoutSeconds)
    refine ⟨message, ?_⟩
    dsimp only [answer]
    rw [hm]
    exact isLine_selectionError message
  | config => exact absurd h id

/-- What is gathered under distinct keys is an answer if the keys are those of one. -/
theorem isAnswer_gather {entries : List (String × Json)} (keys : List String)
    (hentries : entries.map Prod.fst = keys) (hnodup : keys.Nodup) (herror : "error" ∉ keys)
    (hkeys : ∀ key ∈ order.answerKeys, key ∈ keys)
    (hreasoning : order = .bid false → "reasoning" ∉ keys) :
    order.IsAnswer (Members.gather entries) := by
  have hfind (key : String) : Members.find? (Members.gather entries) key = none ↔ key ∉ keys := by
    rw [Members.find?_gather_of_nodup (hentries ▸ hnodup), Members.find?_eq_none_iff, hentries]
  refine ⟨(hfind "error").mpr herror, fun key hkey => ?_, fun h => ?_⟩
  · exact Option.ne_none_iff_exists'.mp fun hnone => (hfind key).mp hnone (hkeys key hkey)
  · exact (hfind "reasoning").mpr (hreasoning h)

/-- The members of a bid response are an answer to a bid request, unless there is a reasoning that
the order does not ask for. -/
theorem isAnswer_bid (hkeys : order.answerKeys = ["bid", "bid_generation_time_seconds"])
    {reasoning : Option String} (hreasoning : order = .bid false → reasoning = none)
    (bid seconds : Json) :
    order.IsAnswer (Members.gather ([("bid", bid), ("bid_generation_time_seconds", seconds)]
      ++ textMember "reasoning" reasoning)) := by
  cases reasoning with
  | none =>
    exact isAnswer_gather ["bid", "bid_generation_time_seconds"] rfl (by decide) (by decide)
      (fun key hkey => hkeys ▸ hkey) fun _ => by decide
  | some text =>
    refine isAnswer_gather ["bid", "bid_generation_time_seconds", "reasoning"] rfl (by decide)
      (by decide) (fun key hkey => ?_) fun h => nomatch hreasoning h
    rw [hkeys] at hkey
    exact List.mem_append_left ["reasoning"] hkey

/-- Any other request is answered without one. -/
theorem isLine_of_not_rejects (s : Surroundings) (t : Tuning) {input : String}
    (hconfig : order ≠ .config)
    (hrelay : ∀ seconds bidder, order = .relay seconds bidder → bidder ≠ [])
    (h : ¬ order.Rejects input) :
    ∃ fields, IsLine (order.answer s t input) fields ∧ order.IsAnswer fields := by
  cases order with
  | bid explain =>
    obtain ⟨b, hlevel, hb⟩ := Command.bid_of_not_rejects (s := s) (t := t) h explain
    have hreasoning : Order.bid explain = .bid false →
        (if explain then b.reasoning else none) = none := by
      rintro ⟨⟩
      rfl
    obtain ⟨bid, seconds, hline⟩ :=
      isLine_bidResponse hlevel (if explain then b.reasoning else none)
    have htext : (Order.bid explain).answer s t input = line (BidResponse.toJson
        { b.response with reasoning := if explain then b.reasoning else none }) := by
      dsimp only [answer]
      rw [hb]
      rfl
    rw [htext]
    exact ⟨_, hline, isAnswer_bid rfl hreasoning bid seconds⟩
  | relay seconds bidder =>
    obtain ⟨b, hlevel, hb⟩ := Command.relay_of_not_rejects (s := s) (t := t) h
      (hrelay seconds bidder rfl) (timeoutOf (seconds.getD t.external.timeoutSeconds))
    obtain ⟨bid, spent, hline⟩ := isLine_bidResponse hlevel b.reasoning
    have htext : (Order.relay seconds bidder).answer s t input = line b.response.toJson := by
      dsimp only [answer]
      rw [hb]
      rfl
    have hreasoning : Order.relay seconds bidder = .bid false → b.reasoning = none := nofun
    rw [htext]
    exact ⟨_, hline, isAnswer_bid rfl hreasoning bid spent⟩
  | select bidder =>
    obtain ⟨selected, hselected⟩ := Command.select_of_not_rejects (s := s) (t := t) h bidder
      (timeoutOf t.external.timeoutSeconds)
    obtain ⟨seconds, hline⟩ := isLine_selectionResponse selected s.own
    have htext : (Order.select bidder).answer s t input
        = line (SelectionResponse.toJson ⟨selected, roundSeconds s.own⟩) := by
      dsimp only [answer]
      rw [hselected]
      rfl
    rw [htext]
    exact ⟨_, hline, isAnswer_gather ["selected_system", "decision_time_seconds"] rfl (by decide)
      (by decide) (fun _ hkey => hkey) nofun⟩
  | config => exact absurd rfl hconfig

end Order

/-! ## Tunings that do not load -/

section Load

variable {file : String → Except ReadError (List UInt8)} {path : String}

/-- At a path stands no tuning: the file cannot be read, its octets are no text, or its text is
refused as a tuning. -/
inductive HoldsNoTuning (file : String → Except ReadError (List UInt8)) (path : String) : Prop where
  | unread (reason : ReadError) (h : file path = .error reason)
  | noText (content : List UInt8) (h : file path = .ok content)
    (hnone : ∀ text, content ≠ Text.toOctets text)
  | refused (text : String) (h : file path = .ok (Text.toOctets text)) (reason : Tuning.LoadError)
    (hrefused : Tuning.ofText text = .error reason)

theorem textOf_of_no_text {content : List UInt8} (h : ∀ text, content ≠ Text.toOctets text) :
    textOf content = .error .notText := by
  unfold textOf
  cases htext : Text.ofOctets? content with
  | none => rfl
  | some text => exact absurd (Text.ofOctets?_eq_some_iff.mp htext) (h text)

theorem loadTuning_of_unread {reason : ReadError} (h : file path = .error reason) :
    loadTuning file path = .error (.unread reason) := by
  unfold loadTuning
  rw [h]
  rfl

theorem loadTuning_of_no_text {content : List UInt8} (h : file path = .ok content)
    (hnone : ∀ text, content ≠ Text.toOctets text) :
    loadTuning file path = .error (.unread .notText) := by
  unfold loadTuning
  rw [h]
  show (Except.mapError TuningError.unread (textOf content) >>= _) = _
  rw [textOf_of_no_text hnone]
  rfl

theorem loadTuning_of_text {text : String} (h : file path = .ok (Text.toOctets text)) :
    loadTuning file path = (Tuning.ofText text).mapError .unfit := by
  have htext : textOf (Text.toOctets text) = .ok text := by
    unfold textOf
    rw [Text.ofOctets?_toOctets]
  unfold loadTuning
  rw [h]
  show (Except.mapError TuningError.unread (textOf (Text.toOctets text)) >>= _) = _
  rw [htext]
  rfl

/-- A tuning does not load exactly where none stands. -/
theorem exists_loadTuning_error :
    (∃ e, loadTuning file path = .error e) ↔ HoldsNoTuning file path := by
  constructor
  · rintro ⟨e, he⟩
    cases hfile : file path with
    | error reason => exact .unread reason hfile
    | ok content =>
      by_cases htext : ∃ text, content = Text.toOctets text
      · obtain ⟨text, rfl⟩ := htext
        rw [loadTuning_of_text hfile] at he
        obtain ⟨reason, hreason, -⟩ := mapError_eq_error.mp he
        exact .refused text hfile reason hreason
      · exact .noText content hfile (not_exists.mp htext)
  · intro h
    cases h with
    | unread reason h => exact ⟨_, loadTuning_of_unread h⟩
    | noText content h hnone => exact ⟨_, loadTuning_of_no_text h hnone⟩
    | refused text h reason hrefused =>
      exact ⟨_, (loadTuning_of_text h).trans (mapError_eq_error.mpr ⟨reason, hrefused, rfl⟩)⟩

end Load

/-- An invocation names a file for its tuning, and no tuning stands there. -/
def Invocation.Fails (t : Terminal) (i : Invocation) : Prop :=
  ∃ path, i.config = some path ∧ HoldsNoTuning t.file path

/-- With a file named, an invocation has the tuning of that file, under its own scorer. -/
theorem Invocation.tuning_of_config {t : Terminal} {i : Invocation} {path : String}
    (h : i.config = some path) : i.tuning t = (loadTuning t.file path).map
      fun tuning => { tuning with scorer := i.scorer.getD tuning.scorer } := by
  unfold tuning
  rw [h]
  cases hload : loadTuning t.file path <;> simp only [hload] <;> rfl

/-- An invocation is left without a tuning exactly if it fails. -/
theorem Invocation.exists_tuning_error {t : Terminal} {i : Invocation} :
    (∃ e, i.tuning t = .error e) ↔ i.Fails t := by
  unfold Fails
  cases hconfig : i.config with
  | none =>
    refine iff_of_false ?_ (by rintro ⟨path, hpath, -⟩; cases hpath)
    rintro ⟨e, he⟩
    unfold tuning at he
    rw [hconfig] at he
    cases he
  | some path =>
    simp only [tuning_of_config hconfig, map_eq_error, exists_loadTuning_error,
      Option.some.injEq, exists_eq_left']

/-- What is no text counts as empty. -/
theorem run_of_no_text {t : Terminal} (h : Text.ofOctets? t.input = none)
    (arguments : List String) : run t arguments = run { t with input := [] } arguments := by
  have hempty : Text.ofOctets? [] = some "" := by simp [Text.ofOctets?, Text.decodeOctets]
  have hinput : inputText t = inputText { t with input := [] } := by
    unfold inputText
    rw [h, hempty]
    rfl
  unfold run
  cases read t.environment arguments with
  | error refusal => cases refusal <;> rfl
  | ok i =>
    show i.run t = i.run { t with input := [] }
    unfold Invocation.run
    rw [hinput]
    rfl

/-- A command that answers requests writes one object on one line, whatever it reads: the error
alone, next to which a selection shows that nothing is selected, exactly if the tuning does not load
or the request is rejected; and otherwise an answer without an error, with the reasoning of a bid
only on demand. The program fails exactly if the tuning does not load, and takes an input that is no
text for an empty one. -/
theorem answers_one_object (t : Terminal) (arguments : List String) (i : Invocation)
    (hread : read t.environment arguments = .ok i) (hconfig : i.order ≠ .config) :
    ∃ fields, IsLine (run t arguments).output fields ∧
      (i.Fails t ∨ i.order.Rejects (inputText t) →
        ∃ message, fields = i.order.errorMembers message) ∧
      (¬ (i.Fails t ∨ i.order.Rejects (inputText t)) → i.order.IsAnswer fields) ∧
      ((run t arguments).code ≠ 0 ↔ i.Fails t) ∧
      (Text.ofOctets? t.input = none → run t arguments = run { t with input := [] } arguments) := by
  have hrun : run t arguments = i.run t := by
    unfold run
    rw [hread]
  cases htuning : i.tuning t with
  | error e =>
    have hexit : run t arguments = ⟨1, i.order.failure (i.failureText e)⟩ := by
      rw [hrun]
      unfold Invocation.run
      rw [htuning]
    have hfails : i.Fails t := Invocation.exists_tuning_error.mp ⟨e, htuning⟩
    have hcode : (run t arguments).code ≠ 0 ↔ i.Fails t := by
      rw [hexit]
      exact iff_of_true Nat.one_ne_zero hfails
    have hline : IsLine (run t arguments).output (i.order.errorMembers (i.failureText e)) := by
      rw [hexit]
      exact Order.isLine_failure hconfig (i.failureText e)
    exact ⟨_, hline, fun _ => ⟨_, rfl⟩, fun h => absurd (.inl hfails) h, hcode,
      fun h => run_of_no_text h arguments⟩
  | ok tuning =>
    have hexit : run t arguments
        = ⟨0, i.order.answer t.surroundings tuning (inputText t)⟩ := by
      rw [hrun]
      unfold Invocation.run
      rw [htuning]
    have hloads : ¬ i.Fails t := by
      intro hfails
      obtain ⟨e, he⟩ := Invocation.exists_tuning_error.mpr hfails
      exact nomatch he.symm.trans htuning
    have hcode : (run t arguments).code ≠ 0 ↔ i.Fails t := by
      rw [hexit]
      exact iff_of_false (fun h => h rfl) hloads
    have houtput : (run t arguments).output
        = i.order.answer t.surroundings tuning (inputText t) := by rw [hexit]
    rw [houtput]
    by_cases hrejects : i.order.Rejects (inputText t)
    · obtain ⟨message, hline⟩ := Order.isLine_of_rejects t.surroundings tuning hrejects
      exact ⟨_, hline, fun _ => ⟨message, rfl⟩, fun h => absurd (.inr hrejects) h, hcode,
        fun h => run_of_no_text h arguments⟩
    · obtain ⟨fields, hline, hanswer⟩ := Order.isLine_of_not_rejects t.surroundings tuning hconfig
        (fun _ _ hrelay => bidder_ne_nil hread hrelay) hrejects
      exact ⟨fields, hline, fun h => absurd h (not_or.mpr ⟨hloads, hrejects⟩),
        fun _ => hanswer, hcode, fun h => run_of_no_text h arguments⟩

/-- A terminal whose input is no text. -/
def garbled : Terminal where
  environment := none
  file _ := .error .notFound
  input := [0xFF]
  surroundings := Command.mirror

/-- An input that is no text is rejected, and the program ends well all the same. -/
theorem answers_one_object_garbled :
    ∃ message, IsLine (run garbled ["bid"]).output [("error", .text message)] ∧
      (run garbled ["bid"]).code = 0 := by
  have hread : read none ["bid"] = .ok ⟨none, none, .bid false⟩ := by decide +kernel
  have hinput : inputText garbled = "" := by
    simp [inputText, garbled, Text.ofOctets?, Text.decodeOctets, Text.Lead.of?]
  obtain ⟨fields, hline, hfailed, -, hcode, -⟩ :=
    answers_one_object garbled ["bid"] ⟨none, none, .bid false⟩ hread (by decide)
  have hrejects : Order.Rejects (inputText garbled) (.bid false) := by
    rw [hinput]
    exact ⟨_, rfl⟩
  have hloads : ¬ Invocation.Fails garbled ⟨none, none, .bid false⟩ := by
    rintro ⟨path, hpath, -⟩
    cases hpath
  obtain ⟨message, rfl⟩ := hfailed (.inr hrejects)
  exact ⟨message, hline, not_not.mp fun hne => hloads (hcode.mp hne)⟩

end CommandLine

end Placement
