import OffchainPallets.ExampleOffchainWorker.Competition
import OffchainPallets.ExampleOffchainWorker.Contention
import OffchainPallets.ExampleOffchainWorker.LoneWorker
import OffchainPallets.ExampleOffchainWorker.ParsePrice
import OffchainPallets.ExampleOffchainWorker.Prices
import OffchainPallets.ExampleOffchainWorker.SendingModes
import OffchainPallets.Mortality
import OffchainPallets.Node
import OffchainPallets.Ocw.HackerNews
import OffchainPallets.Ocw.Numbers
import OffchainPallets.Ocw.OffchainWorker
import OffchainPallets.Ocw.Replay
import OffchainPallets.Ocw.Serial
import OffchainPallets.PriceDrift
import OffchainPallets.SenderReports
import OffchainPallets.SignedPayloads
