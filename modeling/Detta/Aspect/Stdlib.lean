import Detta.Aspect.Ir

/-!
# The standard library

The aspect module that is shipped with the chain
(`models/aspects/stdlib/minimal-transfer-token.metta`): tokens, and the fees, pauses,
restrictions, locks, mints, snapshots, vaults, wrappers, stakes and bridges that are built
over them. Every declaration of the source is here, in the order of the source and by its
own name; what the source says in several declarations of one aspect or bundle is put
together, as it is when the module is lowered.
-/

namespace Detta

namespace Stdlib

/-! ## Aspects -/

/-- An aspect that extends other aspects, and what it provides and requires. -/
def aspect (name : String) (parents provides requires : List String) : AspectDef where
  aspect := name
  isAbstract := false
  extends' := .ofList parents
  conflicts := ∅
  provides := .ofList provides
  requires := .ofList requires

def aspects : List AspectDef := [
  { aspect "BalanceAspect" [] [] [] with isAbstract := true },
  aspect "StaticBalanceAspect" ["BalanceAspect"] [] [],
  aspect "TransferableBalanceAspect" ["BalanceAspect"] ["Balance-Transfer"] [],
  aspect "SelfTransferAspect" ["TransferableBalanceAspect"] [] ["Balance-Transfer"],
  aspect "ApprovalAspect" [] ["Balance-Allowance"] [],
  aspect "DelegatedTransferAspect" ["TransferableBalanceAspect"] []
    ["Balance-Transfer", "Balance-Allowance"],
  aspect "FeeTransferAspect" ["TransferableBalanceAspect"] ["Fee-Transfer"] ["Balance-Transfer"],
  aspect "PausableTransferAspect" ["TransferableBalanceAspect"] ["Pause-Control"]
    ["Balance-Transfer"],
  aspect "RestrictedTransferAspect" ["TransferableBalanceAspect"] ["Restriction-Control"]
    ["Balance-Transfer"],
  aspect "LockedTransferAspect" ["TransferableBalanceAspect"] ["Transfer-Lock"]
    ["Balance-Transfer"],
  aspect "MintableBalanceAspect" ["BalanceAspect"] ["Balance-Mint"] [],
  aspect "BurnableBalanceAspect" ["BalanceAspect"] ["Balance-Burn"] [],
  aspect "CappedMintableAspect" ["MintableBalanceAspect"] ["Balance-CappedMint"]
    ["Balance-Mint"],
  aspect "VotableBalanceAspect" ["BalanceAspect"] ["Balance-Votes"] [],
  aspect "SnapshotBalanceAspect" ["BalanceAspect"] ["Balance-Snapshot"] [],
  aspect "VaultShareBalanceAspect" ["BalanceAspect"] ["Vault-Share"] [],
  aspect "WrappedBalanceAspect" ["BalanceAspect"] ["Balance-Wrap"] [],
  aspect "StakeBalanceAspect" ["BalanceAspect"] ["Balance-Stake"] [],
  aspect "RewardedStakeBalanceAspect" ["StakeBalanceAspect"] ["Balance-RewardedStake"]
    ["Balance-Stake"],
  aspect "BridgeMintBurnAspect" ["BalanceAspect"] ["Bridge-MintBurn"]
    ["Balance-Mint", "Balance-Burn"]]

/-! ## States -/

/-- States that an aspect owns. -/
def owns (aspect : String) (states : List (String × Expr)) : List StateSchema :=
  states.map fun (state, type) => ⟨aspect, state, type⟩

def perAddress : Expr := .list ["->", "Address", "Amount"]

def storageSchema : List StateSchema :=
  owns "BalanceAspect" [("tokenDecimals", "UInt8")] ++
  owns "StaticBalanceAspect" [
    ("initialized", "Amount"), ("totalSupply", "Amount"), ("balanceOf", perAddress)] ++
  owns "ApprovalAspect" [("allowanceOf", .list ["->", "Address", "Address", "Amount"])] ++
  owns "FeeTransferAspect" [("feeBps", "Amount")] ++
  owns "PausableTransferAspect" [("paused", "Amount")] ++
  owns "RestrictedTransferAspect" [("blocked", perAddress)] ++
  owns "LockedTransferAspect" [("lockedUntil", perAddress)] ++
  owns "CappedMintableAspect" [("mintCap", "Amount")] ++
  owns "SnapshotBalanceAspect" [
    ("snapshotBalanceOf", .list ["->", "Amount", "Address", "Amount"]),
    ("snapshotSupply", .list ["->", "Amount", "Amount"])] ++
  owns "VaultShareBalanceAspect" [
    ("vaultAssetReserve", "Amount"), ("vaultShareSupply", "Amount"),
    ("vaultShareBalanceOf", perAddress)] ++
  owns "WrappedBalanceAspect" [("wrappedUnderlyingReserve", "Amount")] ++
  owns "StakeBalanceAspect" [("stakeBalanceOf", perAddress), ("totalStakedBalance", "Amount")] ++
  owns "RewardedStakeBalanceAspect" [
    ("rewardPerBlock", "Amount"), ("rewardReserve", "Amount"), ("pendingRewardOf", perAddress),
    ("lastRewardHeightOf", perAddress)] ++
  owns "BridgeMintBurnAspect" [("bridgeMessageConsumed", perAddress)]

/-! ## Expressions -/

instance : Add Expr := ⟨fun l r => .list ["safe-add", l, r]⟩

instance : Sub Expr := ⟨fun l r => .list ["safe-sub", l, r]⟩

instance : Mul Expr := ⟨fun l r => .list ["safe-mul", l, r]⟩

instance : Div Expr := ⟨fun l r => .list ["safe-div", l, r]⟩

def ge (l r : Expr) : Expr := .list [">=", l, r]

def le (l r : Expr) : Expr := .list ["<=", l, r]

def gt (l r : Expr) : Expr := .list [">", l, r]

def eq (l r : Expr) : Expr := .list ["=", l, r]

def require (condition : Expr) (message : String) : Expr := .list ["require", condition, message]

def get (state : String) (key : List Expr) : Expr := .list ("state-get" :: state :: key)

def set (state : String) (key : List Expr) (value : Expr) : Expr :=
  .list ("state-set!" :: state :: (key ++ [value]))

def increase (state : String) (key : List Expr) (amount : Expr) : Expr :=
  set state key (get state key + amount)

def decrease (state : String) (key : List Expr) (amount : Expr) : Expr :=
  set state key (get state key - amount)

def emit (event : List Expr) : Expr := .list ["emit!", .list event]

/-- The contract takes an amount from the account. -/
def pull (amount : Expr) : Expr :=
  .list ["call-contract!", "$tokenContract", "transferFrom", "$account", "current-contract",
    "$asset", amount]

/-- The contract pays an amount to the account. -/
def pay (amount : Expr) : Expr :=
  .list ["call-contract!", "$tokenContract", "transfer", "$account", "$asset", amount]

/-! ## Actions -/

/-- Actions that are declared by an aspect, and defined by `(= (action parameters) rhs)`. -/
def derived (aspect : String) (actions : List (String × List Expr × Expr)) : List ActionDef :=
  actions.map fun (action, parameters, rhs) =>
    { aspect := aspect
      action := action
      declared := true
      body := some (.list ["=", .list (action :: parameters), rhs]) }

def body (exprs : List Expr) : Expr := .list ("begin" :: exprs)

def succeed (exprs : List Expr) : Expr := body (exprs ++ [.atom "True"])

def fee : Expr := "$amount" * get "feeBps" [] / "10000"

def mintedShares : Expr :=
  "$assets" * get "vaultShareSupply" [] / get "vaultAssetReserve" []

def redeemedAssets : Expr :=
  "$shares" * get "vaultAssetReserve" [] / get "vaultShareSupply" []

def accruedReward : Expr :=
  get "pendingRewardOf" ["$account"] +
    ("block-height" - get "lastRewardHeightOf" ["$account"]) *
      get "stakeBalanceOf" ["$account"] * get "rewardPerBlock" []

def actions : List ActionDef :=
  derived "StaticBalanceAspect" [
    ("initializeSupply", ["$owner", "$amount"], succeed [
      require (eq (get "initialized" []) "0") "ALREADY_INITIALIZED",
      set "initialized" [] "1",
      set "totalSupply" [] "$amount",
      set "balanceOf" ["$owner"] "$amount",
      emit ["Transfer", "ZeroAddress", "$owner", "$amount"]])] ++
  derived "TransferableBalanceAspect" [
    ("transferBalance", ["$from", "$to", "$amount"], succeed [
      require (ge (get "balanceOf" ["$from"]) "$amount") "INSUFFICIENT_BALANCE",
      decrease "balanceOf" ["$from"] "$amount",
      increase "balanceOf" ["$to"] "$amount",
      emit ["Transfer", "$from", "$to", "$amount"]])] ++
  derived "SelfTransferAspect" [
    ("transferFromSelf",
      ["$caller", "$to", "$amount"], .list ["transferBalance", "$caller", "$to", "$amount"])] ++
  derived "ApprovalAspect" [
    ("approveAllowance", ["$owner", "$spender", "$amount"], succeed [
      set "allowanceOf" ["$owner", "$spender"] "$amount",
      emit ["Approval", "$owner", "$spender", "$amount"]]),
    ("spendAllowance", ["$owner", "$spender", "$amount"], succeed [
      require (ge (get "allowanceOf" ["$owner", "$spender"]) "$amount") "ALLOWANCE_EXCEEDED",
      decrease "allowanceOf" ["$owner", "$spender"] "$amount"]),
    ("permitAllowance", ["$owner", "$spender", "$asset", "$amount", "$certificate"], succeed [
      .list ["permit-verify!", "$owner", "$spender", "$asset", "$amount", "$certificate"],
      set "allowanceOf" ["$owner", "$spender"] "$amount",
      emit ["Approval", "$owner", "$spender", "$amount"]])] ++
  derived "DelegatedTransferAspect" [
    ("transferFromApproved", ["$owner", "$spender", "$to", "$amount"], succeed [
      .list ["spendAllowance", "$owner", "$spender", "$amount"],
      .list ["transferBalance", "$owner", "$to", "$amount"]])] ++
  derived "FeeTransferAspect" [
    ("configureFee", ["$feeBps"], succeed [
      require (le "$feeBps" "10000") "FEE_TOO_HIGH",
      set "feeBps" [] "$feeBps"]),
    ("transferWithFee", ["$from", "$to", "$amount"], succeed [
      require (le (get "feeBps" []) "10000") "FEE_TOO_HIGH",
      require (.list ["not", eq "$from" "FeeTreasury"]) "FEE_TREASURY_SENDER_UNSUPPORTED",
      require (.list ["not", eq "$to" "FeeTreasury"]) "FEE_TREASURY_RECIPIENT_UNSUPPORTED",
      require (ge (get "balanceOf" ["$from"]) "$amount") "INSUFFICIENT_BALANCE",
      decrease "balanceOf" ["$from"] "$amount",
      increase "balanceOf" ["FeeTreasury"] fee,
      increase "balanceOf" ["$to"] ("$amount" - fee),
      emit ["Transfer", "$from", "FeeTreasury", fee],
      emit ["Transfer", "$from", "$to", "$amount" - fee]])] ++
  derived "PausableTransferAspect" [
    ("setPaused", ["$paused"], succeed [
      require (le "$paused" "1") "INVALID_PAUSE_FLAG",
      set "paused" [] "$paused"]),
    ("transferUnlessPaused", ["$from", "$to", "$amount"], succeed [
      require (eq (get "paused" []) "0") "TOKEN_PAUSED",
      .list ["transferBalance", "$from", "$to", "$amount"]])] ++
  derived "RestrictedTransferAspect" [
    ("setBlocked", ["$account", "$blocked"], succeed [
      require (le "$blocked" "1") "INVALID_BLOCK_FLAG",
      set "blocked" ["$account"] "$blocked"]),
    ("transferUnlessBlocked", ["$from", "$to", "$amount"], succeed [
      require (eq (get "blocked" ["$from"]) "0") "SENDER_BLOCKED",
      require (eq (get "blocked" ["$to"]) "0") "RECIPIENT_BLOCKED",
      .list ["transferBalance", "$from", "$to", "$amount"]])] ++
  derived "LockedTransferAspect" [
    ("setLockedUntil", ["$account", "$height"], succeed [set "lockedUntil" ["$account"] "$height"]),
    ("transferAfterUnlock", ["$from", "$to", "$amount"], succeed [
      require (ge "block-height" (get "lockedUntil" ["$from"])) "SENDER_LOCKED",
      .list ["transferBalance", "$from", "$to", "$amount"]])] ++
  derived "MintableBalanceAspect" [
    ("mintBalance", ["$to", "$amount"], succeed [
      require (gt "$amount" "0") "ZERO_MINT",
      increase "totalSupply" [] "$amount",
      increase "balanceOf" ["$to"] "$amount",
      emit ["Transfer", "ZeroAddress", "$to", "$amount"]])] ++
  derived "BurnableBalanceAspect" [
    ("burnBalance", ["$from", "$amount"], succeed [
      require (gt "$amount" "0") "ZERO_BURN",
      require (ge (get "balanceOf" ["$from"]) "$amount") "INSUFFICIENT_BALANCE",
      require (ge (get "totalSupply" []) "$amount") "INSUFFICIENT_SUPPLY",
      decrease "balanceOf" ["$from"] "$amount",
      decrease "totalSupply" [] "$amount",
      emit ["Transfer", "$from", "ZeroAddress", "$amount"]])] ++
  derived "CappedMintableAspect" [
    ("setMintCap", ["$cap"], succeed [
      require (ge "$cap" (get "totalSupply" [])) "CAP_BELOW_SUPPLY",
      set "mintCap" [] "$cap"]),
    ("mintWithinCap", ["$to", "$amount"], succeed [
      require (le (get "totalSupply" [] + "$amount") (get "mintCap" [])) "MINT_CAP_EXCEEDED",
      .list ["mintBalance", "$to", "$amount"]])] ++
  derived "VotableBalanceAspect" [
    ("readVotingPower", ["$account"], get "balanceOf" ["$account"])] ++
  derived "SnapshotBalanceAspect" [
    ("captureSnapshot", ["$account", "$snapshotId"], succeed [
      set "snapshotBalanceOf" ["$snapshotId", "$account"] (get "balanceOf" ["$account"]),
      set "snapshotSupply" ["$snapshotId"] (get "totalSupply" []),
      emit ["Snapshot", "$snapshotId", "$account", get "balanceOf" ["$account"]]]),
    ("readSnapshotBalance",
      ["$account", "$snapshotId"], get "snapshotBalanceOf" ["$snapshotId", "$account"]),
    ("readSnapshotSupply", ["$snapshotId"], get "snapshotSupply" ["$snapshotId"])] ++
  derived "VaultShareBalanceAspect" [
    ("depositVault", ["$tokenContract", "$asset", "$account", "$assets"], body [
      require (gt "$assets" "0") "ZERO_DEPOSIT",
      .list ["if", eq (get "vaultShareSupply" []) "0",
        body [
          pull "$assets",
          increase "vaultAssetReserve" [] "$assets",
          increase "vaultShareSupply" [] "$assets",
          increase "vaultShareBalanceOf" ["$account"] "$assets",
          emit ["VaultDeposit", "$account", "$assets", "$assets"],
          "$assets"],
        body [
          require (gt (get "vaultAssetReserve" []) "0") "EMPTY_RESERVE",
          require (gt mintedShares "0") "ZERO_SHARES",
          pull "$assets",
          increase "vaultAssetReserve" [] "$assets",
          increase "vaultShareSupply" [] mintedShares,
          increase "vaultShareBalanceOf" ["$account"] mintedShares,
          emit ["VaultDeposit", "$account", "$assets", mintedShares],
          mintedShares]]]),
    ("redeemVault", ["$tokenContract", "$asset", "$account", "$shares"], body [
      require (gt "$shares" "0") "ZERO_REDEEM",
      require (gt (get "vaultShareSupply" []) "0") "EMPTY_SHARE_SUPPLY",
      require (ge (get "vaultShareBalanceOf" ["$account"]) "$shares") "INSUFFICIENT_SHARES",
      require (ge (get "vaultShareSupply" []) "$shares") "INSUFFICIENT_SHARE_SUPPLY",
      require (gt redeemedAssets "0") "ZERO_REDEEM_OUTPUT",
      decrease "vaultShareBalanceOf" ["$account"] "$shares",
      decrease "vaultShareSupply" [] "$shares",
      decrease "vaultAssetReserve" [] redeemedAssets,
      pay redeemedAssets,
      emit ["VaultRedeem", "$account", redeemedAssets, "$shares"],
      redeemedAssets]),
    ("readVaultShares", ["$account"], get "vaultShareBalanceOf" ["$account"])] ++
  derived "WrappedBalanceAspect" [
    ("wrapBalance", ["$tokenContract", "$asset", "$account", "$amount"], body [
      require (gt "$amount" "0") "ZERO_WRAP",
      pull "$amount",
      increase "wrappedUnderlyingReserve" [] "$amount",
      increase "totalSupply" [] "$amount",
      increase "balanceOf" ["$account"] "$amount",
      emit ["Transfer", "ZeroAddress", "$account", "$amount"],
      emit ["Wrap", "$account", "$amount"],
      "$amount"]),
    ("unwrapBalance", ["$tokenContract", "$asset", "$account", "$amount"], body [
      require (gt "$amount" "0") "ZERO_UNWRAP",
      require (ge (get "balanceOf" ["$account"]) "$amount") "INSUFFICIENT_BALANCE",
      require (ge (get "totalSupply" []) "$amount") "INSUFFICIENT_SUPPLY",
      require (ge (get "wrappedUnderlyingReserve" []) "$amount") "INSUFFICIENT_RESERVE",
      decrease "balanceOf" ["$account"] "$amount",
      decrease "totalSupply" [] "$amount",
      decrease "wrappedUnderlyingReserve" [] "$amount",
      pay "$amount",
      emit ["Transfer", "$account", "ZeroAddress", "$amount"],
      emit ["Unwrap", "$account", "$amount"],
      "$amount"])] ++
  derived "StakeBalanceAspect" [
    ("stakeBalance", ["$account", "$amount"], succeed [
      require (gt "$amount" "0") "ZERO_STAKE",
      increase "stakeBalanceOf" ["$account"] "$amount",
      increase "totalStakedBalance" [] "$amount",
      emit ["Stake", "$account", "$amount"]]),
    ("unstakeBalance", ["$account", "$amount"], succeed [
      require (gt "$amount" "0") "ZERO_UNSTAKE",
      require (ge (get "stakeBalanceOf" ["$account"]) "$amount") "INSUFFICIENT_STAKE",
      require (ge (get "totalStakedBalance" []) "$amount") "INSUFFICIENT_TOTAL_STAKE",
      decrease "stakeBalanceOf" ["$account"] "$amount",
      decrease "totalStakedBalance" [] "$amount",
      emit ["Unstake", "$account", "$amount"]]),
    ("readStakeBalance", ["$account"], get "stakeBalanceOf" ["$account"])] ++
  derived "RewardedStakeBalanceAspect" [
    ("configureStakeReward", ["$reward"], succeed [set "rewardPerBlock" [] "$reward"]),
    ("fundStakeRewardReserve", ["$tokenContract", "$asset", "$account", "$amount"], succeed [
      require (gt "$amount" "0") "ZERO_REWARD_FUND",
      pull "$amount",
      increase "rewardReserve" [] "$amount",
      emit ["RewardFunded", "$account", "$amount"]]),
    ("accrueStakeReward", ["$account"], succeed [
      require (ge "block-height" (get "lastRewardHeightOf" ["$account"])) "REWARD_TIME_REWIND",
      set "pendingRewardOf" ["$account"] accruedReward,
      set "lastRewardHeightOf" ["$account"] "block-height"]),
    ("stakeWithRewardAccrual", ["$tokenContract", "$asset", "$account", "$amount"], succeed [
      require (gt "$amount" "0") "ZERO_STAKE",
      pull "$amount",
      .list ["accrueStakeReward", "$account"],
      .list ["stakeBalance", "$account", "$amount"]]),
    ("unstakeWithRewardAccrual", ["$tokenContract", "$asset", "$account", "$amount"], succeed [
      .list ["accrueStakeReward", "$account"],
      .list ["unstakeBalance", "$account", "$amount"],
      pay "$amount"]),
    ("claimStakeReward", ["$tokenContract", "$asset", "$account"], body [
      require (ge "block-height" (get "lastRewardHeightOf" ["$account"])) "REWARD_TIME_REWIND",
      require (gt accruedReward "0") "ZERO_REWARD",
      require (ge (get "rewardReserve" []) accruedReward) "INSUFFICIENT_REWARD_RESERVE",
      set "pendingRewardOf" ["$account"] "0",
      set "lastRewardHeightOf" ["$account"] "block-height",
      decrease "rewardReserve" [] accruedReward,
      pay accruedReward,
      emit ["RewardClaimed", "$account", accruedReward],
      accruedReward])] ++
  derived "BridgeMintBurnAspect" [
    ("bridgeMintBalance",
      ["$sourceChain", "$messageId", "$recipient", "$asset", "$amount", "$certificate"], succeed [
      require (gt "$amount" "0") "ZERO_BRIDGE_MINT",
      .list ["bridge-verify!", "$sourceChain", "$messageId", "$recipient", "$asset", "$amount",
        "$certificate"],
      require (eq (get "bridgeMessageConsumed" ["$messageId"]) "0") "BRIDGE_MESSAGE_REPLAY",
      set "bridgeMessageConsumed" ["$messageId"] "1",
      .list ["mintBalance", "$recipient", "$amount"]]),
    ("bridgeBurnBalance",
      ["$account", "$destinationChain", "$destinationContract", "$messageId", "$recipient",
       "$asset", "$amount"], succeed [
      require (gt "$amount" "0") "ZERO_BRIDGE_BURN",
      .list ["burnBalance", "$account", "$amount"],
      .list ["cross-shard-outbox-append!", "$destinationChain", "$destinationContract",
        "$messageId", "$recipient", "$asset", "$amount"]])]

/-! ## Invariants -/

/-- The invariants, none of which says anything. -/
def invariants : List InvariantDef :=
  [("TransferableBalanceAspect", "TBA-3"), ("ApprovalAspect", "AA-1"),
    ("FeeTransferAspect", "FEE-1"), ("PausableTransferAspect", "PAUSE-1"),
    ("RestrictedTransferAspect", "RESTRICT-1"), ("LockedTransferAspect", "LOCK-1"),
    ("MintableBalanceAspect", "MINT-1"), ("BurnableBalanceAspect", "BURN-1"),
    ("CappedMintableAspect", "CAP-1"), ("VotableBalanceAspect", "VOTE-1"),
    ("SnapshotBalanceAspect", "SNAP-1"), ("VaultShareBalanceAspect", "VAULT-1"),
    ("WrappedBalanceAspect", "WRAP-1"), ("StakeBalanceAspect", "STAKE-1"),
    ("RewardedStakeBalanceAspect", "REWARD-1"), ("BridgeMintBurnAspect", "BRIDGE-1")].map
    fun (aspect, name) => ⟨aspect, name, "True"⟩

/-! ## Bundles -/

def bundle (name : String) (includes : List String) : BundleDef :=
  ⟨name, .ofList includes, ∅, ∅⟩

/-- A bundle with balances that can be transferred. -/
def token (name : String) (includes : List String) : BundleDef :=
  bundle name (["StaticBalanceAspect", "TransferableBalanceAspect"] ++ includes)

def bundles : List BundleDef := [
  token "MinimalTransferToken" ["SelfTransferAspect", "ApprovalAspect", "DelegatedTransferAspect"],
  token "ERC20ConformantToken" ["SelfTransferAspect", "ApprovalAspect", "DelegatedTransferAspect"],
  token "FeeToken" ["FeeTransferAspect"],
  token "PausableToken" ["PausableTransferAspect"],
  token "RestrictedToken" ["RestrictedTransferAspect"],
  token "LockedToken" ["LockedTransferAspect"],
  token "MintBurnToken" ["MintableBalanceAspect", "BurnableBalanceAspect"],
  token "CappedMintToken" ["MintableBalanceAspect", "CappedMintableAspect"],
  token "VotableToken" ["VotableBalanceAspect"],
  token "SnapshotToken" ["SnapshotBalanceAspect"],
  bundle "VaultShareToken" ["VaultShareBalanceAspect"],
  token "WrappedToken" ["WrappedBalanceAspect"],
  bundle "RewardedStakeToken" ["StakeBalanceAspect", "RewardedStakeBalanceAspect"],
  token "BridgeMintBurnToken" ["MintableBalanceAspect", "BurnableBalanceAspect",
    "BridgeMintBurnAspect"]]

/-! ## Types -/

/-- Symbols of the same type. -/
def symbols (type : String) (names : List String) : List (String × Expr) :=
  names.map fun name => (name, .atom type)

/-- The declared symbols, with their types. -/
def types : List (String × Expr) :=
  symbols "Type" ["Aspect", "Bundle", "Facet", "State", "Action", "Invariant", "Projection",
    "Address", "Amount", "Bool", "UInt8"] ++
  symbols "Aspect" (aspects.map (·.aspect)) ++ symbols "Bundle" (bundles.map (·.bundle))

/-! ## Methods -/

/-- A projection `(= (head parameters) (action arguments))`, whose head is its name with a dot in
    place of the hyphen, with its interface, which has the parameters without their `$`, and with
    its policy, by which the named methods of any contract may be called. -/
structure Entry where
  name : String
  parameters : List (String × String)
  action : String
  arguments : List Expr
  result : String
  authority : AuthorityKind
  effects : List EffectKind
  invariants : List String
  calls : List String

namespace Entry

variable (bundle : String) (e : Entry)

def head : String := .ofList (e.name.toList.map fun c => if c = '-' then '.' else c)

def projection : ProjectionDef :=
  ⟨bundle, e.name, .list ["=", .list (e.head :: e.parameters.map fun p => .atom p.1),
    .list (e.action :: e.arguments)]⟩

def abi : MethodAbiDef :=
  ⟨bundle, e.name, .list ("args" :: e.parameters.map fun p =>
    .list [.atom (.ofList p.1.toList.tail), p.2]), e.result⟩

def policy : MethodPolicyIr where
  bundle := bundle
  projection := e.name
  authority := e.authority
  effects := .ofList e.effects
  invariants := .ofList e.invariants
  callAllowlist := .ofList (e.calls.map fun method => ContractPattern.mk .any method)
  readAllowlist := ∅

/-- It reads a number, and does nothing else. -/
def reads : Entry := { e with result := "Amount", effects := [.readState] }

/-- It is for an administrator. -/
def governed : Entry := { e with authority := .governanceAdminGrant }

/-- It writes a setting, for an administrator. -/
def configures : Entry := { e.governed with effects := [.writeState] }

/-- It calls a method of other contracts. -/
def calling (method result : String) : Entry :=
  { e with
    result := result
    effects := [.readState, .writeState, .emitEvent, .callContract]
    calls := [method] }

end Entry

/-- A method that anybody may call, which reads and writes the state and emits an event. -/
def method (name : String) (parameters : List (String × String)) (action : String)
    (arguments : List Expr) (invariants : List String) : Entry :=
  ⟨name, parameters, action, arguments, "Bool", .txSender,
    [.readState, .writeState, .emitEvent], invariants, []⟩

/-- A method that passes its parameters on. -/
def direct (name : String) (parameters : List (String × String)) (action : String)
    (invariants : List String) : Entry :=
  method name parameters action (parameters.map fun p => .atom p.1) invariants

def transfer (action : String) (invariants : List String) : Entry :=
  method "ERC20-transfer" [("$to", "Address"), ("$amount", "Amount")] action
    ["tx.sender", "$to", "$amount"] invariants

def initialization (invariants : List String) : Entry :=
  (direct "ERC20-initialize" [("$owner", "Address"), ("$amount", "Amount")] "initializeSupply"
    invariants).governed

def approve : Entry :=
  { method "ERC20-approve" [("$spender", "Address"), ("$amount", "Amount")] "approveAllowance"
      ["tx.sender", "$spender", "$amount"] ["AA-1"] with
    effects := [.writeState, .emitEvent] }

def transferFrom : Entry :=
  method "ERC20-transferFrom" [("$owner", "Address"), ("$to", "Address"), ("$amount", "Amount")]
    "transferFromApproved" ["$owner", "tx.sender", "$to", "$amount"] ["TBA-3", "AA-1"]

/-- A method that moves an amount between the caller and the contract. -/
def moving (name amount action : String) (invariants : List String) : Entry :=
  method name [("$tokenContract", "Address"), ("$asset", "Asset"), (amount, "Amount")] action
    ["$tokenContract", "$asset", "tx.sender", amount] invariants

/-- Methods of a bundle. -/
def offers (bundle : String) (entries : List Entry) : List (String × Entry) :=
  entries.map fun e => (bundle, e)

def methods : List (String × Entry) :=
  ([transfer "transferFromSelf" ["TBA-3"], approve, transferFrom].flatMap fun e =>
    [("MinimalTransferToken", e), ("ERC20ConformantToken", e)]) ++
  offers "ERC20ConformantToken" [
    { direct "ERC20-permit" [("$owner", "Address"), ("$spender", "Address"), ("$asset", "Asset"),
        ("$amount", "Amount"), ("$certificate", "Bytes")] "permitAllowance" ["AA-1"] with
      authority := .permitCertificate
      effects := [.writeState, .emitEvent, .usePermitCertificate] },
    initialization ["TBA-3"]] ++
  offers "FeeToken" [
    initialization ["TBA-3"],
    (direct "Fee-setConfig" [("$feeBps", "Amount")] "configureFee" ["FEE-1"]).configures,
    transfer "transferWithFee" ["TBA-3", "FEE-1"]] ++
  offers "PausableToken" [
    initialization ["TBA-3"],
    (direct "Pause-setPaused" [("$paused", "Amount")] "setPaused" ["PAUSE-1"]).configures,
    transfer "transferUnlessPaused" ["TBA-3", "PAUSE-1"]] ++
  offers "RestrictedToken" [
    initialization ["TBA-3"],
    (direct "Restriction-setBlocked" [("$account", "Address"), ("$blocked", "Amount")]
      "setBlocked" ["RESTRICT-1"]).configures,
    transfer "transferUnlessBlocked" ["TBA-3", "RESTRICT-1"]] ++
  offers "LockedToken" [
    initialization ["TBA-3"],
    (direct "Lock-setUntil" [("$account", "Address"), ("$height", "Amount")] "setLockedUntil"
      ["LOCK-1"]).configures,
    transfer "transferAfterUnlock" ["TBA-3", "LOCK-1"]] ++
  offers "MintBurnToken" [
    initialization ["TBA-3"],
    transfer "transferBalance" ["TBA-3"],
    (direct "Mint-mint" [("$to", "Address"), ("$amount", "Amount")] "mintBalance"
      ["MINT-1"]).governed,
    method "Burn-burn" [("$amount", "Amount")] "burnBalance" ["tx.sender", "$amount"] ["BURN-1"]] ++
  offers "CappedMintToken" [
    initialization ["TBA-3", "CAP-1"],
    transfer "transferBalance" ["TBA-3", "CAP-1"],
    { (direct "Cap-setMintCap" [("$cap", "Amount")] "setMintCap" ["CAP-1"]).governed with
      effects := [.readState, .writeState] },
    (direct "Mint-mint" [("$to", "Address"), ("$amount", "Amount")] "mintWithinCap"
      ["MINT-1", "CAP-1"]).governed] ++
  offers "VotableToken" [
    initialization ["TBA-3", "VOTE-1"],
    transfer "transferBalance" ["TBA-3", "VOTE-1"],
    (direct "Votes-getVotes" [("$account", "Address")] "readVotingPower" ["VOTE-1"]).reads] ++
  offers "SnapshotToken" [
    initialization ["TBA-3", "SNAP-1"],
    transfer "transferBalance" ["TBA-3", "SNAP-1"],
    direct "Snapshot-capture" [("$account", "Address"), ("$snapshotId", "Amount")]
      "captureSnapshot" ["SNAP-1"],
    (direct "Snapshot-balanceOf" [("$account", "Address"), ("$snapshotId", "Amount")]
      "readSnapshotBalance" ["SNAP-1"]).reads,
    (direct "Snapshot-totalSupply" [("$snapshotId", "Amount")] "readSnapshotSupply"
      ["SNAP-1"]).reads] ++
  offers "VaultShareToken" [
    (moving "Vault-deposit" "$assets" "depositVault" ["VAULT-1"]).calling "transferFrom" "Amount",
    (moving "Vault-redeem" "$shares" "redeemVault" ["VAULT-1"]).calling "transfer" "Amount",
    (direct "Vault-sharesOf" [("$account", "Address")] "readVaultShares" ["VAULT-1"]).reads] ++
  offers "WrappedToken" [
    (moving "Wrapped-wrap" "$amount" "wrapBalance" ["WRAP-1"]).calling "transferFrom" "Amount",
    (moving "Wrapped-unwrap" "$amount" "unwrapBalance" ["WRAP-1"]).calling "transfer" "Amount",
    transfer "transferBalance" ["TBA-3", "WRAP-1"]] ++
  offers "RewardedStakeToken" [
    (direct "Staking-configureReward" [("$reward", "Amount")] "configureStakeReward"
      ["REWARD-1"]).configures,
    (moving "Staking-fundRewards" "$amount" "fundStakeRewardReserve" ["REWARD-1"]).calling
      "transferFrom" "Bool",
    (moving "Staking-stake" "$amount" "stakeWithRewardAccrual" ["STAKE-1", "REWARD-1"]).calling
      "transferFrom" "Bool",
    (moving "Staking-unstake" "$amount" "unstakeWithRewardAccrual"
      ["STAKE-1", "REWARD-1"]).calling "transfer" "Bool",
    (method "Staking-claimReward" [("$tokenContract", "Address"), ("$asset", "Asset")]
      "claimStakeReward" ["$tokenContract", "$asset", "tx.sender"] ["REWARD-1"]).calling
      "transfer" "Amount",
    (direct "Staking-stakeOf" [("$account", "Address")] "readStakeBalance" ["STAKE-1"]).reads] ++
  offers "BridgeMintBurnToken" [
    { direct "Bridge-mint" [("$sourceChain", "Address"), ("$messageId", "Address"),
        ("$recipient", "Address"), ("$asset", "Asset"), ("$amount", "Amount"),
        ("$certificate", "Bytes")] "bridgeMintBalance" ["MINT-1", "BRIDGE-1"] with
      authority := .bridgeCertificate
      effects := [.readState, .writeState, .emitEvent, .useBridgeCertificate] },
    { method "Bridge-burn" [("$destinationChain", "Address"), ("$destinationContract", "Address"),
        ("$messageId", "Address"), ("$recipient", "Address"), ("$asset", "Asset"),
        ("$amount", "Amount")] "bridgeBurnBalance"
        ["tx.sender", "$destinationChain", "$destinationContract", "$messageId", "$recipient",
         "$asset", "$amount"] ["BURN-1", "BRIDGE-1"] with
      effects := [.readState, .writeState, .emitEvent, .crossShardOutboxAppend] },
    transfer "transferBalance" ["TBA-3", "BRIDGE-1"]]

/-! ## The module -/

/-- The declarations of the standard library. -/
def declarations : Declarations where
  types := types
  aspects := aspects
  bundles := bundles
  projections := methods.map fun (bundle, e) => e.projection bundle
  actions := actions
  storageSchema := storageSchema
  invariants := invariants
  abi := methods.map fun (bundle, e) => e.abi bundle
  policies := methods.map fun (bundle, e) => e.policy bundle

/-- The root of the source of the standard library, as it is shipped. -/
def sourceRoot : String := "0f550e19ac7c1b22cdf0fb0a6d8dda8fb86a53b97739f2c35a1f40f8b344e870"

/-- The standard library. -/
def module : AspectModuleIr := declarations.lower sourceRoot

end Stdlib

end Detta
