import TickReplay.Json.Reader
import TickReplay.Main
import TickReplay.Proofs.CommandLine.Spelled
import TickReplay.Proofs.Feed.Pacing
import TickReplay.Proofs.Feed.Promptness
import TickReplay.Proofs.Feed.Session
import TickReplay.Proofs.Feed.Source
import TickReplay.Proofs.Feed.Ties
import TickReplay.Proofs.Feed.Waiting
import TickReplay.Proofs.Feed.Warmup
import TickReplay.Proofs.Log
import TickReplay.Proofs.Tail.Limit
import TickReplay.Proofs.Tail.Lines
import TickReplay.Proofs.Tick.Decoding
import TickReplay.Proofs.Tick.Delivery
import TickReplay.Proofs.Tick.Layout
import TickReplay.Proofs.Tick.Minus
import TickReplay.Proofs.Tick.Ordinary
import TickReplay.Proofs.Tick.Columns
import TickReplay.Proofs.Tick.Written
