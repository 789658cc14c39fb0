import MarsRules.Main
import MarsRules.Registry
import MarsRules.Bus.Script
import MarsRules.Proofs.Atomicity
import MarsRules.Proofs.Played
import MarsRules.Proofs.Dispatch
import MarsRules.Proofs.Subscribed
import MarsRules.Proofs.Solvency
import MarsRules.Proofs.Endings
import MarsRules.Proofs.Readiness
import MarsRules.Proofs.Preflight
import MarsRules.Proofs.Ledger
import MarsRules.Proofs.Posting
import MarsRules.Proofs.Chronicle
import MarsRules.Proofs.Accounts
import MarsRules.Proofs.Raises
import MarsRules.Proofs.Generations
import MarsRules.Proofs.Offers
import MarsRules.Proofs.Cards
import MarsRules.Proofs.Stages
import MarsRules.Proofs.Decks
import MarsRules.Proofs.Deliveries
import MarsRules.Proofs.Interleaving
import MarsRules.Proofs.Rewards
import MarsRules.Proofs.Documents
import MarsRules.Proofs.Boards
import MarsRules.Proofs.Vocabulary
import MarsRules.Proofs.Ranges
import MarsRules.Proofs.Payments
import MarsRules.Proofs.Charges
import MarsRules.Proofs.Closing
import MarsRules.Proofs.Picks
import MarsRules.Proofs.Retriggers
import MarsRules.Proofs.Founding
import MarsRules.Proofs.Settling
import MarsRules.Proofs.Clamping
import MarsRules.Proofs.Requirements
import MarsRules.Proofs.Restoring
import MarsRules.Proofs.Keeping
import MarsRules.Proofs.Choices
import MarsRules.Proofs.Costs
import MarsRules.Proofs.Words
import MarsRules.Proofs.Renewals
import MarsRules.Proofs.Catalogs
import MarsRules.Proofs.Legality
import MarsRules.Proofs.Staging
import MarsRules.Proofs.Hexagons
import MarsRules.Proofs.Queues
