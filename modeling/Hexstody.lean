import Hexstody.Library.AssocMap
import Hexstody.Library.Codec
import Hexstody.Library.Machine
import Hexstody.Domain
import Hexstody.Withdraw
import Hexstody.Transaction
import Hexstody.Exchange
import Hexstody.User
import Hexstody.State
import Hexstody.Apply
import Hexstody.Lemmas.Account
import Hexstody.Lemmas.Request
import Hexstody.Journal
import Hexstody.Lemmas.Journal
import Hexstody.Lemmas.Tally
import Hexstody.Theorems.Votes
import Hexstody.Lemmas.World
import Hexstody.Handlers
import Hexstody.Theorems.Payments
import Hexstody.Theorems.Statuses
import Hexstody.Theorems.Authorised
import Hexstody.BtcModule
import Hexstody.Library.Counting
import Hexstody.Theorems.SignatureCount
import Hexstody.Login
import Hexstody.Theorems.Sessions
import Hexstody.Lemmas.Order
import Hexstody.Library.Wrapping
import Hexstody.Lemmas.Balance
import Hexstody.Lemmas.Reserve
import Hexstody.Theorems.Solvency
import Hexstody.Lemmas.Replay
import Hexstody.Lemmas.Limit
import Hexstody.Theorems.Restart
import Hexstody.Theorems.SpendingLimit
import Hexstody.Lemmas.Ledger
import Hexstody.Theorems.ExchangeAccount
import Hexstody.BtcClient
import Hexstody.Theorems.PaymentReports
import Hexstody.Process
import Hexstody.Theorems.ConfirmedWithdrawals
import Hexstody.Scan
import Hexstody.Polling
import Hexstody.Theorems.EventDelivery
import Hexstody.Following
import Hexstody.Lemmas.Deposits
import Hexstody.Lemmas.Following
import Hexstody.Theorems.Conflicts
import Hexstody.Theorems.Finality
import Hexstody.Theorems.Reorganisation
import Hexstody.Lemmas.LimitChange
import Hexstody.Operator
import Hexstody.Theorems.Resending
import Hexstody.Tasks
import Hexstody.Theorems.Deadlock
import Hexstody.Listing
import Hexstody.Lemmas.Users
import Hexstody.Lemmas.WellFormed
import Hexstody.Theorems.Settlement
import Hexstody.Theorems.LimitDecisions
import Hexstody.Theorems.Agreement
import Hexstody.Theorems.Determinism
import Hexstody.Library.Checked
import Hexstody.Theorems.Exactness
import Hexstody.Theorems.TokenRemoval
import Hexstody.Library.Delimited
import Hexstody.Routes
import Hexstody.Theorems.SignedTexts
import Hexstody.EthModule
import Hexstody.Theorems.TokenPolling
import Hexstody.Tokens
import Hexstody.Theorems.TokenLists
import Hexstody.Stored
import Hexstody.Theorems.StoredForm
import Hexstody.Theorems.FailedUpdates
import Hexstody.History
import Hexstody.Theorems.PendingOrders
import Hexstody.Lemmas.Addresses
import Hexstody.Theorems.AddressOwners
import Hexstody.Theorems.DepositLists
import Hexstody.Theorems.LimitQuorum
import Hexstody.Theorems.ExchangeVotes
import Hexstody.Theorems.Admission
import Hexstody.Library.Radix
import Hexstody.Library.Hex
import Hexstody.Library.Rounding
import Hexstody.EthSending
import Hexstody.Theorems.TokenTransfers
import Hexstody.Mnemonic
import Hexstody.Lemmas.Bits
import Hexstody.Theorems.Mnemonics
import Hexstody.AddressDesk
import Hexstody.Theorems.ExchangeAddresses
import Hexstody.ColdWallet
import Hexstody.Theorems.ColdStorage
import Hexstody.Library.Decimal
import Hexstody.EthBalances
import Hexstody.Theorems.HotTotals
import Hexstody.Library.Lists
import Hexstody.Balances
import Hexstody.Theorems.BalanceAnswers
import Hexstody.Lemmas.Invites
import Hexstody.Theorems.SingleUse
import Hexstody.PublicWallet
import Hexstody.Theorems.SupportedCurrencies
import Hexstody.Tickers
import Hexstody.Theorems.TickerCache
import Hexstody.HistoryPage
import Hexstody.Theorems.HistoryPages
import Hexstody.Library.Url
import Hexstody.EthClient
import Hexstody.Theorems.EthLogins
import Hexstody.SignupDesk
import Hexstody.Theorems.SignUps
import Hexstody.Library.Pattern
import Hexstody.Contacts
import Hexstody.Theorems.ContactTexts
import Hexstody.Library.Unwinding
import Hexstody.Lemmas.Confined
import Hexstody.Theorems.Isolation
import Hexstody.Profile
import Hexstody.Lemmas.Settings
import Hexstody.Theorems.ProfileSettings
import Hexstody.Library.Notify
import Hexstody.Runner
import Hexstody.Theorems.Startup
import Hexstody.Announcing
import Hexstody.Theorems.Announcements
import Hexstody.Theorems.Snapshots
import Hexstody.Theorems.Rest
import Hexstody.Library.Base64
import Hexstody.SignedHeader
import Hexstody.Theorems.SignedHeader
import Hexstody.DepositDesk
import Hexstody.Theorems.UserAddresses
import Hexstody.OrderLists
import Hexstody.Theorems.OrderLists
import Hexstody.LimitBook
import Hexstody.Theorems.LimitBooks
