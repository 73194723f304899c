import ShardedKV.ShardKV.Invariant

/-!
# The loops of a leader

What a leader proposes from its own state and from the replies of other groups is permitted.
-/

namespace ShardedKV.ShardKV

open Services
open ShardCtrler (Shard Config ServerName)
open KvRaft (Op Request Operation)
open Migration (Extends)

variable {controller : Controller} {attentive : Prop} {protocol : Protocol} {system next : System} {gid : Int}

/-! ## What other groups reply -/

theorem shardsRequestHandler_ok {kv : GroupState} (known : Known controller protocol gid kv)
    {args : ShardRequestArgs} (said : (kv.shardsRequestHandler args).err = .ok) :
    ∃ given, protocol.handoff args.configNum args.shardIndex =
        some ((kv.shardsRequestHandler args).shardData, given) ∧
      (∀ client, given client ≤ ((kv.shardsRequestHandler args).clientSeqNum client).getD 0) ∧
      ∀ client, ((kv.shardsRequestHandler args).clientSeqNum client).getD 0 = 0 ∨
        ∃ place, protocol.done place client (((kv.shardsRequestHandler args).clientSeqNum client).getD 0) := by
  obtain ⟨earlier, further, invariant, rel⟩ := known
  unfold GroupState.shardsRequestHandler at said ⊢
  split at said
  · cases said
  split at said
  · rename_i current bePulled
    have number : args.configNum = earlier.number gid := by
      rw [← rel.number]
      simpa using current
    obtain ⟨given, offered, covers⟩ := invariant.retained gid _ ((rel.bePulled_iff _).mp bePulled)
    rw [if_neg current, if_pos bePulled]
    refine ⟨given, ?_, ?_, ?_⟩
    · rw [← number, rel.data] at offered
      exact further.handoff _ _ _ offered
    · intro client
      have covered := covers client
      rw [rel.session] at covered
      exact covered
    · intro client
      have sound := invariant.sound gid client
      rw [rel.session] at sound
      exact sound.imp id fun ⟨place, done⟩ => ⟨place, further.done _ _ _ done⟩
  · cases said

/-- A group that says that it has a shard has received it, if it owns the shard in the configuration
it was asked about. -/
theorem shardsConfirmHandler_ok (now : Migration.Invariant (scheme controller) protocol) {target : Int}
    {kv : GroupState} (known : Known controller protocol target kv) {isLeader : Bool} {args : ShardConfirmArgs}
    (aimed : protocol.number gid = args.configNum → protocol.phase gid args.shardIndex = .releasing →
      target = (controller.config args.configNum).shards args.shardIndex)
    (said : (kv.shardsConfirmHandler isLeader args).err = .ok) :
    Harmless protocol gid args.configNum args.shardIndex := by
  intro current releasing
  obtain ⟨earlier, further, invariant, rel⟩ := known
  have owns := aimed current releasing
  obtain ⟨bound, left, owned⟩ := now.releasing_owner releasing
  rw [current] at bound left owned
  apply further.received
  apply invariant.delivered target _ _ bound owns.symm
  · rw [owned]
    intro same
    exact left (owns.symm.trans same.symm)
  · unfold GroupState.shardsConfirmHandler at said
    split at said
    · cases said
    split at said
    · cases said
    split at said
    · rename_i served
      rw [rel.number] at served
      rcases served with ⟨same, serving⟩ | less
      · exact .inr ⟨same.symm, (rel.serving_iff _).mp serving⟩
      · exact .inl less
    · cases said

theorem PullOk.unanswered {pull : Exchange ShardRequestReply} (ok : PullOk protocol pull)
    (servers : List ServerName) : PullOk protocol { pull with servers, reply := none } :=
  ⟨ok.number, by rintro _ ⟨⟩⟩

theorem ConfirmOk.unanswered {confirm : Exchange ShardConfirmReply}
    (ok : ConfirmOk controller attentive protocol confirm) (servers : List ServerName) :
    ConfirmOk controller attentive protocol { confirm with servers, reply := none } :=
  ⟨ok.number, ok.aimed, by rintro _ _ ⟨⟩⟩

/-! ## The steps of the loops -/

namespace Consistent

variable (consistent : Consistent controller attentive protocol system)
include consistent

theorem getLastConfig {server : ServerName}
    {latest : Nat} (stepped : system.getLastConfig controller gid server latest = some next) :
    Consistent controller attentive protocol next := by
  unfold System.getLastConfig at stepped
  obtain ⟨earlier, further, invariant, rel⟩ := consistent.known gid server
  dsimp only at stepped
  split at stepped
  · cases stepped
  split at stepped
  · rename_i ready
    cases stepped
    apply consistent.propose
    have legit : Legit controller earlier gid (.configOperation
        (controller.config ((system.replica gid server).server.kv.config.num + 1))) := by
      refine ⟨_, Nat.le_add_left 1 _, rfl, by rw [rel.number], ?_⟩
      intro _
      rcases ready.2 with outside | settled
      · exact .inl (by rw [outside])
      · right
        intro shard
        rw [rel.phase]
        rcases settled shard with noServing | serving
        · exact .inr (by rw [noServing]; rfl)
        · exact .inl (by rw [serving]; rfl)
    exact legit.mono further (by rintro _ ⟨⟩)
  · cases stepped

theorem collect {server : ServerName} {confirming : Bool}
    (stepped : system.collect gid server confirming = some next) : Consistent controller attentive protocol next := by
  unfold System.collect at stepped
  dsimp only at stepped
  split at stepped
  · cases stepped
  · cases stepped
    exact consistent.setRounds _

theorem spawn {id : Nat} (asks : attentive → system.asksOwner (.spawn id) = true)
    (stepped : system.spawn id = some next) : Consistent controller attentive protocol next := by
  unfold System.spawn at stepped
  cases found : system.rounds[id]? with
  | none => simp [found] at stepped
  | some round =>
    simp only [found] at stepped
    cases shards : round.shards with
    | nil => simp [shards] at stepped
    | cons shardIndex rest =>
      simp only [shards] at stepped
      split at stepped
      · cases stepped
      have moved := consistent.setRounds (system.rounds.set id { round with shards := rest })
      have number := consistent.number_le round.gid round.server
      split at stepped
      · cases stepped
        exact moved
      split at stepped
      · rename_i confirming
        cases stepped
        refine { moved with confirms := ?_ }
        intro confirm member
        rcases List.mem_append.mp member with old | new
        · exact consistent.confirms confirm old
        · rw [List.mem_singleton.mp new]
          refine ⟨number, ?_, by rintro _ _ ⟨⟩⟩
          intro attends current releasing
          obtain ⟨earlier, further, invariant, rel⟩ := consistent.known round.gid round.server
          obtain ⟨_, waited⟩ := releasing_of_extends further (Nat.le_of_eq rel.number) current releasing
          have asked := asks attends
          simp only [System.asksOwner, found, confirming, shards, decide_eq_true_eq] at asked
          have inside := (invariant.releasing_owner waited).1
          rw [← asked ((rel.bePulled_iff shardIndex).mpr waited), rel.number, rel.config (by omega)]
      · cases stepped
        refine { moved with pulls := ?_ }
        intro pull member
        rcases List.mem_append.mp member with old | new
        · exact consistent.pulls pull old
        · rw [List.mem_singleton.mp new]
          exact ⟨number, by rintro _ ⟨⟩⟩

theorem servePull {id : Nat}
    (stepped : system.servePull id = some next) : Consistent controller attentive protocol next := by
  unfold System.servePull at stepped
  cases found : system.pulls[id]? with
  | none => simp [found] at stepped
  | some pull =>
    have ok := consistent.pulls pull (List.mem_of_getElem? found)
    simp only [found] at stepped
    split at stepped
    · split at stepped
      · cases stepped
      · cases stepped
        apply consistent.setPull
        refine ⟨ok.number, ?_⟩
        rintro _ ⟨⟩ said
        exact shardsRequestHandler_ok (consistent.known _ _) said
    · cases stepped

theorem finishPull {id : Nat}
    (stepped : system.finishPull id = some next) : Consistent controller attentive protocol next := by
  unfold System.finishPull at stepped
  cases found : system.pulls[id]? with
  | none => simp [found] at stepped
  | some pull =>
    have ok := consistent.pulls pull (List.mem_of_getElem? found)
    cases replied : pull.reply with
    | none => simp [found, replied] at stepped
    | some reply =>
      simp only [found, replied] at stepped
      split at stepped
      · cases stepped
      split at stepped
      · rename_i accepted
        split at stepped
        · cases stepped
          have server := consistent.replicas pull.gid pull.server
          have moved : Consistent controller attentive protocol (system.setReplica pull.gid pull.server
              { system.replica pull.gid pull.server with stopped := true }) :=
            consistent.setWaitChan (.refl server.waiters) fun _ same => same
          exact moved.setPull (PullOk.unanswered ok [])
        · cases stepped
          apply propose (consistent.setPull (PullOk.unanswered ok []))
          exact ⟨ok.number, ok.reply reply replied accepted.1⟩
      · cases stepped
        exact consistent.setPull (PullOk.unanswered ok _)

theorem losePull {id : Nat}
    (stepped : system.losePull id = some next) : Consistent controller attentive protocol next := by
  unfold System.losePull at stepped
  cases found : system.pulls[id]? with
  | none => simp [found] at stepped
  | some pull =>
    simp only [found, Option.some.injEq] at stepped
    subst stepped
    exact consistent.setPull (PullOk.unanswered (consistent.pulls pull (List.mem_of_getElem? found)) _)

theorem serveConfirm {id : Nat} {isLeader : Bool}
    (stepped : system.serveConfirm id isLeader = some next) : Consistent controller attentive protocol next := by
  unfold System.serveConfirm at stepped
  cases found : system.confirms[id]? with
  | none => simp [found] at stepped
  | some confirm =>
    have ok := consistent.confirms confirm (List.mem_of_getElem? found)
    simp only [found] at stepped
    split at stepped
    · split at stepped
      · cases stepped
      · cases stepped
        refine consistent.setConfirm ⟨ok.number, ok.aimed, ?_⟩
        rintro attends _ ⟨⟩ said
        exact shardsConfirmHandler_ok consistent.mirrored.now.invariant (consistent.known _ _)
          (ok.aimed attends) said
    · cases stepped

theorem finishConfirm {id : Nat}
    (stepped : system.finishConfirm id = some next) : Consistent controller attentive protocol next := by
  unfold System.finishConfirm at stepped
  cases found : system.confirms[id]? with
  | none => simp [found] at stepped
  | some confirm =>
    have ok := consistent.confirms confirm (List.mem_of_getElem? found)
    cases replied : confirm.reply with
    | none => simp [found, replied] at stepped
    | some reply =>
      simp only [found, replied] at stepped
      split at stepped
      · cases stepped
      split at stepped
      · rename_i accepted
        cases stepped
        apply propose (consistent.setConfirm (ConfirmOk.unanswered ok []))
        exact ⟨ok.number, fun attends => ok.reply attends reply replied accepted.1⟩
      · cases stepped
        exact consistent.setConfirm (ConfirmOk.unanswered ok _)

theorem loseConfirm {id : Nat}
    (stepped : system.loseConfirm id = some next) : Consistent controller attentive protocol next := by
  unfold System.loseConfirm at stepped
  cases found : system.confirms[id]? with
  | none => simp [found] at stepped
  | some confirm =>
    simp only [found, Option.some.injEq] at stepped
    subst stepped
    exact consistent.setConfirm
      (ConfirmOk.unanswered (consistent.confirms confirm (List.mem_of_getElem? found)) _)

end Consistent

end ShardedKV.ShardKV
