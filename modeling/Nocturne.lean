import Nocturne.Lib.Proc
import Nocturne.Lib.Table
import Nocturne.Lib.Fs
import Nocturne.Base
import Nocturne.Db
import Nocturne.World
import Nocturne.Scan.Tags
import Nocturne.Scan.Run
import Nocturne.Scan.Visit
import Nocturne.Scan.Walk
import Nocturne.Scan.Collision
import Nocturne.Scan.Effect
import Nocturne.Scan.Identity
import Nocturne.Lib.Answers
import Nocturne.Scan.Failing
import Nocturne.Scan.Reconcile
import Nocturne.Lib.Records
import Nocturne.Lib.Lww
import Nocturne.Jsonl.Reader
import Nocturne.Jsonl.Resume
import Nocturne.Ingest.Event
import Nocturne.Ingest.Handlers
import Nocturne.Ingest.Run
import Nocturne.Ingest.Effect
import Nocturne.Ingest.Pass
import Nocturne.Ingest.File
import Nocturne.Ingest.Exactly
import Nocturne.Ingest.Trail
import Nocturne.Ingest.Truncation
import Nocturne.Ingest.Calm
import Nocturne.Ingest.Recovery
import Nocturne.Ingest.Delivery
import Nocturne.Ingest.Likes
import Nocturne.Ingest.Stance
import Nocturne.Ingest.Pins
import Nocturne.Lib.Steps
import Nocturne.Lib.Greedy
import Nocturne.Cycle.Gate
import Nocturne.Phone.FileWriter
import Nocturne.Phone.Drain
import Nocturne.Resolve.Admission
import Nocturne.Catalog.Agree
import Nocturne.Rotate.Run
import Nocturne.Blacklist.Runs
import Nocturne.Rotate.Audio
import Nocturne.Rotate.Relocate
import Nocturne.Resolve.AllOrNothing
import Nocturne.Resolve.Exclude
import Nocturne.Resolve.Diff
import Nocturne.Cycle.Lock
import Nocturne.Phone.Stats
import Nocturne.Phone.Resume
import Nocturne.Phone.Albums
import Nocturne.Download.Dispatch
import Nocturne.Watch.Coverage
import Nocturne.Migrate.Heal
import Nocturne.Migrate.Converge
import Nocturne.Catalog.RoundTrip
import Nocturne.Jsonl.SinglePass
import Nocturne.Resolve.Exploration
import Nocturne.Resolve.Seed
import Nocturne.Resolve.Window
import Nocturne.Resolve.Partition
import Nocturne.Phone.AlbumIds
import Nocturne.Publish.AtomicWriter
import Nocturne.Config.Sources
import Nocturne.Discover.Week
import Nocturne.Phone.MusicTree
import Nocturne.Phone.ShuffleOrder
import Nocturne.Phone.AlbumShuffle
import Nocturne.Phone.Sorter
import Nocturne.Phone.Search
import Nocturne.Phone.StatusPoll
import Nocturne.Phone.Aggregate
import Nocturne.Watch.WdMap
import Nocturne.Rotate.Prune
import Nocturne.Rotate.Orphans
import Nocturne.Lib.Utf8
import Nocturne.Lib.Extended
import Nocturne.Lib.JsonString
import Nocturne.Lib.Compact
import Nocturne.Lib.Whereabouts
import Nocturne.Download.Utf8Copy
import Nocturne.Migrate.Loudness
import Nocturne.Watch.Debounce
import Nocturne.Scan.Escape
import Nocturne.Scan.Payload
import Nocturne.Config.Strings
import Nocturne.Tagcheck.Report
import Nocturne.Tagcheck.Quarantine
import Nocturne.Schema.Migrations
import Nocturne.Level.Run
import Nocturne.Level.Standing
import Nocturne.Level.Converge
import Nocturne.Lib.Tokens
import Nocturne.Publish.Manifest
import Nocturne.Phone.Follow
import Nocturne.Tagcheck.Walker
import Nocturne.Lib.JsonText
import Nocturne.Printed
import Nocturne.Tagcheck.ReportJson
import Nocturne.Lib.Percent
import Nocturne.Sync.Syncthing
import Nocturne.Publish.Histories
import Nocturne.Publish.Why
import Nocturne.Resolve.DiffJson
